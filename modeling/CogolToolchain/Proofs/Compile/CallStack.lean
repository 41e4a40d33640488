import CogolToolchain.Proofs.Compile.Steps

/-!
Calls and returns match.

A run is followed together with the calls that have not returned (`Session.Runs`). As long as
statements write neither the program counter nor what calls and returns rely on (`Session.Guarded`),
and the call stack does not pass the last cell, every return belongs to the last call that has not
returned, and the frames of these calls lie behind each other (`Session.calls_and_returns_match`).
-/

namespace CogolToolchain

open Memory Machine

lemma frameCell_eq_ofNat (top : Word) (i : Nat) :
    frameCell top i = UInt16.ofNat (top.toNat + i) := by
  rw [UInt16.ofNat_add, UInt16.ofNat_toNat]
  rfl

lemma toNat_frameCell {top : Word} {i : Nat} (h : top.toNat + i < 65536) :
    (frameCell top i).toNat = top.toNat + i := by
  rw [frameCell_eq_ofNat, Word.toNat_ofNat_of_lt h]

lemma Resolver.isError_of_problem? {r : Resolver} {a : Operand} {p : Problem}
    (h : r.problem? a = some p) : (p.diagnostic "").isError = true := by
  unfold Resolver.problem? at h
  split at h
  · cases h
  · split at h
    · cases h
    · split at h
      all_goals
        obtain rfl := Option.some.inj h
        rfl
    · obtain rfl := Option.some.inj h
      rfl

namespace Session

open Statement Build Call

variable {settings : Settings} {source : String} {blocks : List Code}

/-- A call that has not returned, with its frame at `top` and the frame of its subroutine that was
active before. -/
structure Activation (settings : Settings) (source : String) (blocks : List Code) where
  {site : Nat}
  call : Laid settings source blocks site
  top : Word
  previous : Word

namespace Activation

def name (a : Activation settings source blocks) : String := a.call.lowering.frame.name

def size (a : Activation settings source blocks) : Nat := a.call.lowering.frame.size

end Activation

/-- The first cell behind the frames of the calls that have not returned, the last one first. -/
def ceiling : List (Activation settings source blocks) → Nat
  | [] => (callCell settings source).toNat + 1
  | a :: _ => a.top.toNat + a.size

/-- The active frame of a subroutine, which is `base` as long as it is not called. -/
def active (base : String → Word) : List (Activation settings source blocks) → String → Word
  | [], name => base name
  | a :: A, name => if a.name = name then a.top else active base A name

/-- What calls and returns rely on: the call stack pointer, the frame pointers, and the first two
cells of the frames of calls that have not returned. -/
def Guarded (A : List (Activation settings source blocks)) : Set Word :=
  {c | c = callCell settings source ∨
    (∃ name, ((compiled settings source).scope.frame? name).isSome ∧
    c = pointerCell settings source name) ∨
    ∃ a ∈ A, ∃ i < 2, c = frameCell a.top i}

/-- The frames lie behind each other on the call stack. The first two cells of each one lead back to
the place of the call and to the frame that was active before. -/
inductive Stacked (base : String → Word) (m : Memory) : List (Activation settings source blocks) →
    Prop
  | nil : Stacked base m []
  | cons {a : Activation settings source blocks} {A : List (Activation settings source blocks)}
      (hrest : Stacked base m A) (htop : a.top.toNat = ceiling A)
      (hroom : ceiling A + a.size ≤ 65536)
      (hlanding : m.read (frameCell a.top 0) = UInt16.ofNat a.call.landing)
      (hprevious : m.read (frameCell a.top 1) = a.previous)
      (hactive : a.previous = active base A a.name)
      (hwithin : ∃ names, Within settings source blocks names a.call.landing ∧
        names.head? = A.head?.map Activation.name) : Stacked base m (a :: A)

/-- The state of a run: control is in the subroutine that was called last, and the pointers are
those of the calls that have not returned. -/
structure Sound (base : String → Word) (A : List (Activation settings source blocks)) (s : Spot) :
    Prop where
  within : ∃ names, Within settings source blocks names s.place ∧
    names.head? = A.head?.map Activation.name
  call : s.memory.read (callCell settings source) = UInt16.ofNat (ceiling A)
  pointers : ∀ name, ((compiled settings source).scope.frame? name).isSome →
    s.memory.read (pointerCell settings source name) = active base A name
  stacked : Stacked base s.memory A

section

variable {A : List (Activation settings source blocks)} {base : String → Word} {m m' : Memory}
  {a : Activation settings source blocks}

lemma Stacked.lt_ceiling (h : Stacked base m A) : (callCell settings source).toNat < ceiling A := by
  induction h with
  | nil => exact Nat.lt_succ_self _
  | cons _ htop _ _ _ _ _ ih =>
    rw [ceiling]
    omega

lemma Stacked.bounds (h : Stacked base m A) (ha : a ∈ A) :
    (callCell settings source).toNat < a.top.toNat ∧ a.top.toNat + a.size ≤ ceiling A ∧
      a.top.toNat + a.size ≤ 65536 := by
  induction h with
  | nil => cases ha
  | @cons b A hrest htop hroom _ _ _ _ ih =>
    have hlt := hrest.lt_ceiling
    rw [ceiling]
    rcases List.mem_cons.mp ha with rfl | ha
    · omega
    · have := ih ha
      omega

lemma Stacked.congr (h : Stacked base m A)
    (heq : ∀ a ∈ A, ∀ i < 2, m'.read (frameCell a.top i) = m.read (frameCell a.top i)) :
    Stacked base m' A := by
  induction h with
  | nil => exact .nil
  | @cons b A hrest htop hroom hlanding hprevious hactive hwithin ih =>
    have hb := heq b List.mem_cons_self
    exact .cons (ih fun a ha => heq a (List.mem_cons_of_mem _ ha)) htop hroom
      ((hb 0 (by decide)).trans hlanding) ((hb 1 (by decide)).trans hprevious) hactive hwithin

lemma Stacked.pairwise (h : Stacked base m A) : A.Pairwise fun a b =>
    ∀ i < a.size, ∀ j < b.size, frameCell a.top i ≠ frameCell b.top j := by
  induction h with
  | nil => exact .nil
  | @cons a A hrest htop hroom _ _ _ _ ih =>
    refine .cons (fun b hb i hi j hj heq => ?_) ih
    have hbounds := hrest.bounds hb
    have hcells := congrArg UInt16.toNat heq
    rw [toNat_frameCell (by omega), toNat_frameCell (by omega)] at hcells
    omega

variable (hc : (compiled settings source).bench.Clean)

include hc in
lemma Activation.one_lt_size (a : Activation settings source blocks) : 1 < a.size := by
  obtain ⟨params, hshape⟩ := a.call.exists_shaped hc
  exact hshape.one_lt_size

variable (hfits : FitsMachine settings source)
include hc hfits

lemma apart_of_lt {c : Word} (h : (callCell settings source).toNat < c.toNat) :
    c ∉ (compiled settings source).bench.scratch.hidden ∧ c ≠ callCell settings source ∧
      ∀ name, ((compiled settings source).scope.frame? name).isSome →
        c ≠ pointerCell settings source name := by
  refine ⟨fun hmem => ?_, ?_, fun name hsome => ?_⟩
  · have := hidden_lt hc hfits hmem
    omega
  · rintro rfl
    exact Nat.lt_irrefl _ h
  · obtain ⟨frame, hframe⟩ := Option.isSome_iff_exists.mp hsome
    have := (pointerCell_lt hc hfits hframe).1
    rintro rfl
    omega

lemma pointerCell_ne_callCell {name : String}
    (hsome : ((compiled settings source).scope.frame? name).isSome) :
    pointerCell settings source name ≠ callCell settings source := by
  obtain ⟨frame, hframe⟩ := Option.isSome_iff_exists.mp hsome
  intro heq
  have hlt := (pointerCell_lt hc hfits hframe).1
  rw [heq] at hlt
  exact Nat.lt_irrefl _ hlt

omit hfits in
lemma Stacked.lt_frameCell (h : Stacked base m A) (ha : a ∈ A) {i : Nat} (hi : i < 2) :
    (frameCell a.top i).toNat = a.top.toNat + i ∧
      (callCell settings source).toNat < (frameCell a.top i).toNat := by
  obtain ⟨hlo, -, hhi⟩ := h.bounds ha
  have hsize := a.one_lt_size hc
  rw [toNat_frameCell (by omega)]
  omega

lemma Stacked.notMem_hidden (h : Stacked base m A) {c : Word}
    (hmem : c ∈ (compiled settings source).bench.scratch.hidden) : c ∉ Guarded A := by
  rintro (rfl | ⟨name, hsome, rfl⟩ | ⟨a, ha, i, hi, rfl⟩)
  · exact callCell_notMem_hidden hc hfits hmem
  · obtain ⟨frame, hframe⟩ := Option.isSome_iff_exists.mp hsome
    exact (pointerCell_lt hc hfits hframe).2 hmem
  · exact (apart_of_lt hc hfits (h.lt_frameCell hc ha hi).2).1 hmem

lemma Stacked.frameCell_notMem (h : Stacked base m A) {top : Word} (htop : top.toNat = ceiling A)
    {i : Nat} (hi : ceiling A + i < 65536) : frameCell top i ∉ Guarded A := by
  have hcell : (frameCell top i).toNat = ceiling A + i := by rw [toNat_frameCell (by omega), htop]
  have hceiling := h.lt_ceiling
  obtain ⟨-, hnotCall, hnotOwn⟩ := apart_of_lt hc hfits (c := frameCell top i) (by omega)
  rintro (heq | ⟨name, hsome, heq⟩ | ⟨a, ha, j, hj, heq⟩)
  · exact hnotCall heq
  · exact hnotOwn name hsome heq
  · obtain ⟨-, hhi, -⟩ := h.bounds ha
    have hsize := a.one_lt_size hc
    have htoNat := (h.lt_frameCell hc ha hj).1
    rw [← heq, hcell] at htoNat
    omega

end

/-! ### Steps -/

section

variable {A : List (Activation settings source blocks)} {base : String → Word}
  {s t : Spot} {n : Nat}
  {name : String}

lemma Sound.keep (h : Sound base A s)
    (hwithin : ∃ names, Within settings source blocks names t.place ∧
      names.head? = A.head?.map Activation.name)
    (hsame : ∀ c ∈ Guarded A, t.memory.read c = s.memory.read c) : Sound base A t where
  within := hwithin
  call := (hsame _ (.inl rfl)).trans h.call
  pointers name hsome := (hsame _ (.inr (.inl ⟨name, hsome, rfl⟩))).trans (h.pointers name hsome)
  stacked := h.stacked.congr fun a ha i hi => hsame _ (.inr (.inr ⟨a, ha, i, hi, rfl⟩))

variable (hc : (compiled settings source).bench.Clean) (hfits : FitsMachine settings source)
  (hblocks : Blocks settings source blocks)
include hc hblocks

lemma Within.around_eq {names : List String} {v : Nat} (h : Within settings source blocks names v)
    (hlo : place settings source blocks n ≤ v) (hhi : v < place settings source blocks (n + 1)) :
    around settings source n = names := by
  rcases h.located hblocks hc with ⟨rfl, -⟩ | ⟨k, hle, hlt, haround, -⟩
  · have := hblocks.place_le_length (n + 1)
    omega
  · rw [eq_of_place hlo hhi hle hlt, haround]

include hfits

lemma sound_start {m : Memory} {d : Array Word}
    (hleads : Leads (emittedWords settings source) (place settings source blocks 0) ⟨0, m, d⟩ s) :
    ∃ base, Sound base ([] : List (Activation settings source blocks)) s := by
  obtain ⟨m', d', hleads', hcall⟩ := leads_start hc hfits hblocks m d
  obtain rfl := hleads.unique hleads'
  refine ⟨fun name => m'.read (pointerCell settings source name), ⟨[], .start rfl rfl, rfl⟩, hcall,
    fun _ _ => rfl, .nil⟩

lemma Sound.plain (h : Sound base A s) (hlt : s.place < (compiled settings source).joined.length)
    (hcall : ∀ n, s.place = place settings source blocks n →
      IsEmpty (Laid settings source blocks n))
    (hends : ∀ n name, s.place = place settings source blocks n →
      ¬ Ends settings source blocks n name)
    (hcareful : ¬ Breaks settings source blocks (emittedWords settings source) (Guarded A) s) :
    ∃ k t, Next (emittedWords settings source) k s t ∧ Sound base A t := by
  obtain ⟨names, hwithin, hhead⟩ := h.within
  obtain ⟨k, t, hnext, hwithin', hsame⟩ := hwithin.step hc hfits hblocks hlt hcall hends
    (fun c hmem => h.stacked.notMem_hidden hc hfits hmem) hcareful
  exact ⟨k, t, hnext, h.keep ⟨names, hwithin', hhead⟩ hsame⟩

lemma Sound.enter (h : Sound base A s) (x : Laid settings source blocks n)
    (hplace : s.place = place settings source blocks n)
    (hroom : ceiling A + x.lowering.frame.size ≤ 65536)
    (hclear : x.StoresPointer → x.Clear s.memory (s.memory.read (callCell settings source)) ∧
      x.target s.memory ∉ Guarded A) :
    ∃ k t, Declares settings source k x.lowering.frame.name ∧
      Leads (emittedWords settings source)
        (x.lowering.address.length + x.lowering.entry.length) s t ∧
      t.place = place settings source blocks (k + 1) ∧
      Sound base (⟨x, s.memory.read (callCell settings source),
        s.memory.read (pointerCell settings source x.lowering.frame.name)⟩ :: A) t := by
  obtain ⟨v, m, d⟩ := s
  obtain rfl : v = place settings source blocks n := hplace
  have hframe := x.frame?_eq hc
  obtain ⟨params, hshape⟩ := x.exists_shaped hc
  have hsize := hshape.one_lt_size
  have hsome : ((compiled settings source).scope.frame? x.lowering.frame.name).isSome := by
    rw [hframe]
    rfl
  -- the new frame
  have htop : (m.read (callCell settings source)).toNat = ceiling A := by
    rw [h.call, Word.toNat_ofNat_of_lt (by omega)]
  generalize hread : m.read (callCell settings source) = top at hclear htop ⊢
  have hapart : ∀ i < x.lowering.frame.size, _ := fun i hi =>
    apart_of_lt hc hfits (c := frameCell top i) (by
      have := h.stacked.lt_ceiling
      rw [toNat_frameCell (by omega)]
      omega)
  have hdest : x.Clear m top ∧ x.target m ∉ Guarded A := by
    by_cases hstores : x.StoresPointer
    · exact hclear hstores
    · exact ⟨x.clear_of_not_storesPointer hstores m top,
        h.stacked.notMem_hidden hc hfits (x.target_mem_hidden hstores m)⟩
  obtain ⟨k, m', d', hdeclares, hleads, hown, hlanding, hprevious, hcall, heq⟩ :=
    x.leads hc hfits hblocks hread
      (fun i hi => ⟨(hapart i hi).1, (hapart i hi).2.1, (hapart i hi).2.2 _ hsome⟩) hdest.1 d
  have hkeep : ∀ c ∈ Guarded A, c ≠ callCell settings source →
      c ≠ pointerCell settings source x.lowering.frame.name → m'.read c = m.read c := by
    intro c hmem hnotCall hnotOwn
    refine heq c ?_
    rintro ((hhidden | ⟨i, hi, rfl⟩) | rfl | rfl | rfl)
    · exact h.stacked.notMem_hidden hc hfits hhidden hmem
    · exact h.stacked.frameCell_notMem hc hfits htop (by omega) hmem
    · exact hnotCall rfl
    · exact hnotOwn rfl
    · exact hdest.2 hmem
  have haround : ∃ names, Within settings source blocks names x.landing ∧
      names.head? = A.head?.map Activation.name := by
    obtain ⟨names, hwithin, hhead⟩ := h.within
    refine ⟨_, x.within_landing hc, ?_⟩
    rw [hwithin.around_eq hc hblocks (Nat.le_refl _) (hblocks.place_lt_of_call hc x.next), hhead]
  refine ⟨k, _, hdeclares, hleads, rfl,
    ⟨_, .start rfl (around_of_declares (clean_stated hc) hdeclares), rfl⟩, ?_, fun name hname => ?_,
    .cons (h.stacked.congr fun a ha i hi => ?_) htop hroom hlanding hprevious
      (h.pointers _ hsome) haround⟩
  · rw [hcall, frameCell_eq_ofNat]
    rfl
  · by_cases hsame : x.lowering.frame.name = name
    · subst hsame
      exact hown.trans (if_pos rfl).symm
    · obtain ⟨frame, hframe'⟩ := Option.isSome_iff_exists.mp hname
      refine (hkeep _ (.inr (.inl ⟨name, hname, rfl⟩)) (pointerCell_ne_callCell hc hfits hname)
        fun heq => hsame (pointerCell_inj hc hfits hframe' hframe heq).symm).trans ?_
      exact (h.pointers name hname).trans (if_neg hsame).symm
  · obtain ⟨-, hnotCall, hnotOwn⟩ := apart_of_lt hc hfits (h.stacked.lt_frameCell hc ha hi).2
    exact hkeep _ (.inr (.inr ⟨a, ha, i, hi, rfl⟩)) hnotCall (hnotOwn _ hsome)

lemma Sound.leave (h : Sound base A s) (hends : Ends settings source blocks n name)
    (hplace : s.place = place settings source blocks n) :
    ∃ a rest t, A = a :: rest ∧ a.name = name ∧ Leads (emittedWords settings source) 4 s t ∧
      t.place = a.call.landing ∧ t.memory.read (callCell settings source) = a.top ∧
      t.memory.read (pointerCell settings source name) = a.previous ∧
      (∀ i < a.size, t.memory.read (frameCell a.top i) = s.memory.read (frameCell a.top i)) ∧
      Sound base rest t := by
  obtain ⟨v, m, d⟩ := s
  obtain rfl : v = place settings source blocks n := hplace
  -- the call that it belongs to
  obtain ⟨names, hwithin, hhead⟩ := h.within
  obtain ⟨temp, -, hemitted⟩ := hends.emitted
  have hlt : place settings source blocks n < place settings source blocks (n + 1) := by
    rw [hemitted.place_succ]
    exact Nat.lt_add_of_pos_right (Nat.succ_pos _)
  rw [← hwithin.around_eq hc hblocks (Nat.le_refl _) hlt, hends.around] at hhead
  obtain ⟨a, rest, rfl⟩ : ∃ a rest, A = a :: rest := by
    cases A with
    | nil => cases hhead
    | cons a rest => exact ⟨a, rest, rfl⟩
  obtain rfl : name = a.name := Option.some.inj hhead
  have hframe := a.call.frame?_eq hc
  have hsome : ((compiled settings source).scope.frame? a.name).isSome := by
    rw [Activation.name, hframe]
    rfl
  have hown : m.read (pointerCell settings source a.name) = a.top :=
    (h.pointers _ hsome).trans (if_pos rfl)
  -- what the return does
  have hbounds := h.stacked.bounds (List.mem_cons_self (a := a) (l := rest))
  have hapart : ∀ i < a.size, _ := fun i hi =>
    apart_of_lt hc hfits (c := frameCell a.top i) (by rw [toNat_frameCell (by omega)]; omega)
  have hsize := a.one_lt_size hc
  obtain ⟨m', d', hleads, hcall, hpointer, heq⟩ := hends.leads hc hfits hframe hown
    (fun i hi => ⟨(hapart i (by omega)).1, (hapart i (by omega)).2.1⟩) d
  have hkeep : ∀ c, c ∉ (compiled settings source).bench.scratch.hidden →
      c ≠ callCell settings source →
      c ≠ pointerCell settings source a.name → m'.read c = m.read c := by
    intro c hhidden hnotCall hnotOwn
    exact heq c (by simp [hhidden, hnotCall, hnotOwn])
  cases h.stacked with
  | cons hrest htop hroom hlanding hprevious hactive hreturn =>
    obtain ⟨outer, houter, -⟩ := id hreturn
    rw [hlanding, Word.toNat_ofNat_of_lt (houter.place_lt hc hfits hblocks)] at hleads
    refine ⟨a, rest, _, rfl, rfl, hleads, rfl, hcall, hpointer.trans hprevious,
      fun i hi => hkeep _ (hapart i hi).1 (hapart i hi).2.1 ((hapart i hi).2.2 _ hsome),
      hreturn, ?_,
      fun name hname => ?_, hrest.congr fun b hb i hi => ?_⟩
    · rw [hcall, ← htop, UInt16.ofNat_toNat]
    · by_cases hsame : a.name = name
      · subst hsame
        exact hpointer.trans (hprevious.trans hactive)
      · obtain ⟨frame, hframe'⟩ := Option.isSome_iff_exists.mp hname
        refine (hkeep _ (pointerCell_lt hc hfits hframe').2 (pointerCell_ne_callCell hc hfits hname)
          fun heq => hsame (pointerCell_inj hc hfits hframe' hframe heq).symm).trans ?_
        exact (h.pointers name hname).trans (if_neg hsame)
    · obtain ⟨hhidden, hnotCall, hnotOwn⟩ := apart_of_lt hc hfits (hrest.lt_frameCell hc hb hi).2
      exact hkeep _ hhidden hnotCall (hnotOwn _ hsome)

end

/-! ### Runs -/

/-- A run of the program from the given memory, followed from statement to statement and from call
to return, together with the calls that have not returned. Between calls and returns no statement
writes the program counter or what calls and returns rely on, and neither does a call that stores
the address of its frame; the call stack does not pass the last cell. -/
inductive Runs (settings : Settings) (source : String) (blocks : List Code) (memory : Memory) :
    List (Activation settings source blocks) → Spot → Prop
  | start {s : Spot} (hleads : Leads (compile settings source).words
      (place settings source blocks 0) ⟨0, memory.write 0 0, #[]⟩ s) :
      Runs settings source blocks memory [] s
  | plain {A : List (Activation settings source blocks)} {s t : Spot} {k : Nat}
      (hrun : Runs settings source blocks memory A s)
      (hcall : ∀ n, s.place = place settings source blocks n →
        IsEmpty (Laid settings source blocks n))
      (hends : ∀ n name, s.place = place settings source blocks n →
        ¬ Ends settings source blocks n name)
      (hcareful : ¬ Breaks settings source blocks (compile settings source).words (Guarded A) s)
      (hnext : Next (compile settings source).words k s t) : Runs settings source blocks memory A t
  | call {A : List (Activation settings source blocks)} {s t : Spot} {n : Nat}
      (hrun : Runs settings source blocks memory A s) (x : Laid settings source blocks n)
      (hplace : s.place = place settings source blocks n)
      (hroom : ceiling A + x.lowering.frame.size ≤ 65536)
      (hclear : x.StoresPointer → x.Clear s.memory (s.memory.read (callCell settings source)) ∧
        x.target s.memory ∉ Guarded A)
      (hleads : Leads (compile settings source).words
        (x.lowering.address.length + x.lowering.entry.length) s t) :
      Runs settings source blocks memory (⟨x, s.memory.read (callCell settings source),
        s.memory.read (pointerCell settings source x.lowering.frame.name)⟩ :: A) t
  | leave {A : List (Activation settings source blocks)} {s t : Spot} {n : Nat} {name : String}
      (hrun : Runs settings source blocks memory A s) (hends : Ends settings source blocks n name)
      (hplace : s.place = place settings source blocks n)
      (hleads : Leads (compile settings source).words 4 s t) :
      Runs settings source blocks memory A.tail t

structure Matched (memory : Memory) (A : List (Activation settings source blocks))
    (s : Spot) : Prop where
  reached : ∃ k, (boot (compile settings source).code memory).run k =
    standing (compile settings source).words s k
  /-- At the end of the program all calls have returned. -/
  finished : (compile settings source).words.length ≤ s.place → A = []
  /-- The run goes on between calls and returns. -/
  continues : s.place < (compile settings source).words.length →
    (∀ n, s.place = place settings source blocks n → IsEmpty (Laid settings source blocks n)) →
    (∀ n name, s.place = place settings source blocks n → ¬ Ends settings source blocks n name) →
    ¬ Breaks settings source blocks (compile settings source).words (Guarded A) s →
    ∃ k t, Next (compile settings source).words k s t
  /-- A call enters the body of its subroutine. -/
  enters : ∀ n (x : Laid settings source blocks n), s.place = place settings source blocks n →
    ceiling A + x.lowering.frame.size ≤ 65536 →
    (x.StoresPointer → x.Clear s.memory (s.memory.read (callCell settings source)) ∧
      x.target s.memory ∉ Guarded A) →
    ∃ k t, Declares settings source k x.lowering.frame.name ∧
      Leads (compile settings source).words (x.lowering.address.length + x.lowering.entry.length) s
      t ∧
      t.place = place settings source blocks (k + 1)
  /-- A return belongs to the last call that has not returned. It goes behind that call, restores
  the pointers, and a field that is stored then is as it was before the return. -/
  returns : ∀ n name, Ends settings source blocks n name →
    s.place = place settings source blocks n → ∃ a rest t, A = a :: rest ∧ a.name = name ∧
    Leads (compile settings source).words 4 s t ∧
      t.place = a.call.landing ∧ t.memory.read (callCell settings source) = a.top ∧
      t.memory.read (pointerCell settings source name) = a.previous ∧
      (a.call.lowering.result ≠ [] → ∃ offset steps i u,
        a.call.lowering.frame.table.address? a.call.field = some offset ∧
        Leads (compile settings source).words steps t u ∧
        u.place + 1 = place settings source blocks (a.site + 1) ∧
        (compile settings source).words[u.place]? = some i ∧
        (u.memory.arrive u.place).eval i.rhs = s.memory.read (frameCell a.top offset))
  /-- The frames of the calls that have not returned are disjoint. -/
  disjoint : A.Pairwise fun a b =>
    ∀ i < a.size, ∀ j < b.size, frameCell a.top i ≠ frameCell b.top j

section

variable {memory : Memory} {A : List (Activation settings source blocks)} {base : String → Word}
  {s : Spot}

lemma words_compile (source : String) (h : settings.optimize = false) :
    (compile settings source).words = emittedWords settings source := by
  rw [Program.words, Structured.code_compile source h]
  rfl

lemma run_boot_compile (source : String) (h : settings.optimize = false) (memory : Memory) :
    (boot (compile settings source).code memory).run 1 =
      standing (compile settings source).words ⟨0, memory.write 0 0, #[]⟩ 1 := by
  rw [Program.words, Structured.code_compile source h, List.tail_cons]
  generalize (compiled settings source).resolver.code _ = code
  rw [run_one (boot_fetch code memory), step_eq (boot_fetch code memory), execute_nop]
  rfl

lemma Runs.reached (hoptimize : settings.optimize = false)
    (h : Runs settings source blocks memory A s) :
    ∃ k, (boot (compile settings source).code memory).run k =
      standing (compile settings source).words s k := by
  have hgo : ∀ {s t : Spot} {k n : Nat}, Leads (compile settings source).words n s t →
      (boot (compile settings source).code memory).run k =
      standing (compile settings source).words s k →
      (boot (compile settings source).code memory).run (k + n) =
        standing (compile settings source).words t (k + n) := fun hleads hk => by
    rw [run_add, hk, hleads]
  induction h with
  | start hleads => exact ⟨_, hgo hleads (run_boot_compile source hoptimize memory)⟩
  | plain _ _ _ _ hnext ih =>
    obtain ⟨k, hk⟩ := ih
    exact ⟨_, hgo hnext.leads hk⟩
  | call _ _ _ _ _ hleads ih =>
    obtain ⟨k, hk⟩ := ih
    exact ⟨_, hgo hleads hk⟩
  | leave _ _ _ hleads ih =>
    obtain ⟨k, hk⟩ := ih
    exact ⟨_, hgo hleads hk⟩

variable (hoptimize : settings.optimize = false) (hc : (compiled settings source).bench.Clean)
  (hfits : FitsMachine settings source) (hblocks : Blocks settings source blocks)
include hoptimize hc hfits hblocks

/-- Every run keeps to the calls that have not returned. -/
theorem Runs.sound (h : Runs settings source blocks memory A s) : ∃ base, Sound base A s := by
  have hwords := words_compile source hoptimize
  induction h with
  | start hleads => exact sound_start hc hfits hblocks (hwords ▸ hleads)
  | plain _ hcall hends hcareful hnext ih =>
    obtain ⟨base, h⟩ := ih
    rw [hwords] at hcareful hnext
    have hlt := hnext.place_lt
    rw [emittedWords, Resolver.length_words] at hlt
    obtain ⟨k, t, hnext', h'⟩ := h.plain hc hfits hblocks hlt hcall hends hcareful
    obtain ⟨-, rfl⟩ := hnext.unique hnext'
    exact ⟨base, h'⟩
  | call _ x hplace hroom hclear hleads ih =>
    obtain ⟨base, h⟩ := ih
    rw [hwords] at hleads
    obtain ⟨k, t, -, hleads', -, h'⟩ := h.enter hc hfits hblocks x hplace hroom hclear
    obtain rfl := hleads.unique hleads'
    exact ⟨base, h'⟩
  | leave _ hends hplace hleads ih =>
    obtain ⟨base, h⟩ := ih
    rw [hwords] at hleads
    obtain ⟨a, rest, t, rfl, -, hleads', -, -, -, -, h'⟩ := h.leave hc hfits hblocks hends hplace
    obtain rfl := hleads.unique hleads'
    exact ⟨base, h'⟩

lemma Sound.matched (hproblems : (compiled settings source).resolver.problems
      (compiled settings source).joined = []) (h : Sound base A s)
    (hreached : ∃ k, (boot (compile settings source).code memory).run k =
      standing (compile settings source).words s k) : Matched memory A s := by
  have hwords := words_compile source hoptimize
  have hlength : (emittedWords settings source).length = (compiled settings source).joined.length :=
    Resolver.length_words _ _
  refine ⟨hreached, fun hend => ?_, fun hlt hcall hends hcareful => ?_,
    fun n x hplace hroom hclear => ?_, fun n name hends hplace => ?_, h.stacked.pairwise⟩
  · obtain ⟨names, hwithin, hhead⟩ := h.within
    rw [hwords, hlength] at hend
    rcases hwithin.located hblocks hc with ⟨-, rfl⟩ | ⟨n, -, hlt, -⟩
    · cases A with
      | nil => rfl
      | cons a rest => cases hhead
    · have := hblocks.place_le_length (n + 1)
      omega
  · rw [hwords] at hlt hcareful ⊢
    obtain ⟨k, t, hnext, -⟩ := h.plain hc hfits hblocks (hlength ▸ hlt) hcall hends hcareful
    exact ⟨k, t, hnext⟩
  · rw [hwords]
    obtain ⟨k, t, hdeclares, hleads, hbody, -⟩ := h.enter hc hfits hblocks x hplace hroom hclear
    exact ⟨k, t, hdeclares, hleads, hbody⟩
  · rw [hwords]
    obtain ⟨a, rest, ⟨v, m, d⟩, hA, hname, hleads, hlanding, hcall, hpointer, hframe, -⟩ :=
      h.leave hc hfits hblocks hends hplace
    refine ⟨a, rest, _, hA, hname, hleads, hlanding, hcall, hpointer, fun hresult => ?_⟩
    obtain rfl : v = a.call.landing := hlanding
    have hbounds := h.stacked.bounds (a := a) (hA ▸ List.mem_cons_self)
    obtain ⟨offset, steps, i, m', d', hoffset, hleads', hlast, hi, heval⟩ :=
      a.call.leads_result hc hfits hproblems hresult hcall (fun j hj => (apart_of_lt hc hfits (by
        have hj' : j < a.size := hj
        rw [toNat_frameCell (by omega)]
        omega)).1) d
    refine ⟨offset, steps, i, _, hoffset, hleads', hlast, hi, ?_⟩
    exact heval.trans (hframe offset (SymbolTable.lt_nextFree_of_address? hoffset))

end

/-! ### Calls and returns -/

/-- The call goes through to the body of its subroutine, and end number `k` of the subroutine goes
back to the place behind the call and restores the pointers, if it finds the frame of the call
active and the first two cells of that frame as the call has left them. -/
def Laid.RestoredBy {n : Nat} (x : Laid settings source blocks n) (k : Nat) : Prop :=
  ∀ (m : Memory) (d : Array Word) (top : Word), m.read (callCell settings source) = top →
    (∀ i < x.lowering.frame.size,
      frameCell top i ∉ (compiled settings source).bench.scratch.hidden ∧
      frameCell top i ≠ callCell settings source ∧
      frameCell top i ≠ pointerCell settings source x.lowering.frame.name) →
    (x.StoresPointer → x.Clear m top) →
    ∃ j m₁ d₁, Declares settings source j x.lowering.frame.name ∧
      Leads (compile settings source).words (x.lowering.address.length + x.lowering.entry.length)
        ⟨place settings source blocks n, m, d⟩ ⟨place settings source blocks (j + 1), m₁, d₁⟩ ∧
      ∀ (m₂ : Memory) (d₂ : Array Word),
        m₂.read (pointerCell settings source x.lowering.frame.name) = top →
        (∀ i < 2, m₂.read (frameCell top i) = m₁.read (frameCell top i)) →
        ∃ m₃ d₃, Leads (compile settings source).words 4 ⟨place settings source blocks k, m₂, d₂⟩
            ⟨x.landing, m₃, d₃⟩ ∧
          m₃.read (callCell settings source) = top ∧
          m₃.read (pointerCell settings source x.lowering.frame.name) =
            m.read (pointerCell settings source x.lowering.frame.name)

lemma problems_eq_nil (h : (compile settings source).hasErrors = false) :
    (compiled settings source).resolver.problems (compiled settings source).joined = [] := by
  refine List.eq_nil_iff_forall_not_mem.mpr fun p hp => ?_
  have hmem : p.diagnostic "" ∈ (compile settings source).diagnostics := by
    rw [compile_eq_finish]
    exact List.mem_append_right _ (List.mem_map_of_mem hp)
  have hfalse := List.any_eq_false.mp h _ hmem
  obtain ⟨i, -, hi⟩ := List.mem_flatMap.mp hp
  obtain ⟨a, -, ha⟩ := List.mem_filterMap.mp hi
  exact hfalse (Resolver.isError_of_problem? ha)

/-- If the place behind a call does not fit in a word, no run from before the jump of the call gets
there, so that no end of its subroutine leads back. -/
theorem calls_out_of_reach (hoptimize : settings.optimize = false)
    (herrors : (compile settings source).hasErrors = false) {n : Nat}
    (x : Laid settings source blocks n) (hfar : 65537 ≤ x.landing) {s t : Spot}
    (hs : s.place + 1 < x.landing) (ht : x.landing ≤ t.place) (steps : Nat) :
    ¬ Leads (compile settings source).words steps s t := by
  obtain ⟨front, slot, hentry⟩ : ∃ front slot, x.lowering.entry =
      front ++ [.jump (.label (.begin x.lowering.frame.block) 1), slot] :=
    ⟨_, _, by rw [Call.Lowering.entry, Call.enterCode, ← List.append_assoc, ← List.append_assoc]⟩
  have hst := x.stands (Structured.clean_of_hasErrors herrors)
  rw [Laid.landing, hentry] at hfar hs ht
  rw [hentry] at hst
  have hfront := ((Resolver.stands_append _).mp hst).1
  have hlast := ((Resolver.stands_append _).mp ((Resolver.stands_append _).mp hfront).2).2
  obtain ⟨hjump, -⟩ := sits_cons.mp hlast.sits
  simp only [List.length_append, List.length_cons, List.length_nil] at hfar hs ht
  rw [words_compile source hoptimize]
  exact not_leads_behind (by omega) hjump (by omega) (by omega)

/-- In an unoptimized program without errors that fits the machine, every call is entered and every
end of its subroutine leads back behind it. In every run in which statements respect the pointers
and the call stack does not pass the last cell, every return belongs to the last call that has not
returned, and the frames of the calls that have not returned are disjoint. -/
theorem calls_and_returns_match (settings : Settings) (source : String)
    (hoptimize : settings.optimize = false) (herrors : (compile settings source).hasErrors = false)
    (hfits : FitsMachine settings source) (hblocks : Blocks settings source blocks) :
    (∀ n, Tokens.peek (after settings source n).bench.tokens = "call" →
      Nonempty (Laid settings source blocks n)) ∧
    (∀ n, Tokens.peek (after settings source n).bench.tokens = "return" →
      ∃ name, Ends settings source blocks n name) ∧
    (∀ n o rest, (after settings source n).blocks = o :: rest → o.block.kind = .sub →
      (after settings source (n + 1)).blocks = rest → ∃ name, Ends settings source blocks n name) ∧
    (∀ n k (x : Laid settings source blocks n),
      Ends settings source blocks k x.lowering.frame.name → x.RestoredBy k) ∧
    ∀ memory, (∃ s, Runs settings source blocks memory [] s) ∧
      ∀ A s, Runs settings source blocks memory A s → Matched memory A s := by
  have hc := Structured.clean_of_hasErrors herrors
  have hwords := words_compile source hoptimize
  refine ⟨fun n => exists_laid hblocks hc, fun n => hblocks.ends_of_return hc,
    fun n o rest => hblocks.ends_of_closes hc, fun n k x hends m d top htop hroom hclear => ?_,
    fun memory => ⟨?_, fun A s hrun => ?_⟩⟩
  · obtain ⟨j, m₁, d₁, hdeclares, hleads, -, hlanding, hprevious, -⟩ :=
      x.leads hc hfits hblocks htop hroom (by
        by_cases hstores : x.StoresPointer
        · exact hclear hstores
        · exact x.clear_of_not_storesPointer hstores m top) d
    rw [hwords]
    refine ⟨j, m₁, d₁, hdeclares, hleads, fun m₂ d₂ hown hcells => ?_⟩
    obtain ⟨params, hshape⟩ := x.exists_shaped hc
    have hsize := hshape.one_lt_size
    obtain ⟨m₃, d₃, hleads', hcall, hpointer, -⟩ := hends.leads hc hfits (x.frame?_eq hc) hown
      (fun i hi => ⟨(hroom i (by omega)).1, (hroom i (by omega)).2.1⟩) d₂
    rw [hcells 0 (by decide), hlanding,
      Word.toNat_ofNat_of_lt ((x.within_landing hc).place_lt hc hfits hblocks)] at hleads'
    exact ⟨m₃, d₃, hleads', hcall, by rw [hpointer, hcells 1 (by decide), hprevious]⟩
  · obtain ⟨m', d', hleads, -⟩ := leads_start hc hfits hblocks (memory.write 0 0) #[]
    exact ⟨_, .start (hwords ▸ hleads)⟩
  · obtain ⟨base, h⟩ := hrun.sound hoptimize hc hfits hblocks
    exact h.matched hoptimize hc hfits hblocks (problems_eq_nil herrors) (hrun.reached hoptimize)

/-- A program that calls a subroutine, which calls itself. -/
def descending : String := "call f(); sub f() \x7b call f(); \x7d"

lemma frame?_descending {name : String} {frame : Frame}
    (h : (compiled { optimize := false } descending).scope.frame? name = some frame) :
    name = "f" ∧ frame.size = 2 := by
  have hsubs : (compiled { optimize := false } descending).scope.subroutines.map
      (fun p => (p.1, p.2.size)) = [("f", 2)] := by decide +kernel
  obtain ⟨⟨key, F⟩, heq, hkey⟩ := List.map_eq_singleton_iff.mp hsubs
  obtain ⟨rfl, hsize⟩ := Prod.mk.inj hkey
  rw [Scope.frame?, heq] at h
  rcases hname : name == "f" with _ | _
  · simp [List.lookup_cons, hname] at h
  · simp only [List.lookup_cons, hname, Option.some.injEq] at h
    exact ⟨by simpa using hname, h ▸ hsize⟩

lemma fitsMachine_descending : FitsMachine { optimize := false } descending := by
  have hcells :
      (compiled { optimize := false } descending).bench.globals.address? callStackName = some 5 ∧
      (compiled { optimize := false } descending).bench.globals.address? "f" = some 3 ∧
      (compiled { optimize := false } descending).joined.length < 65536 := by decide +kernel
  obtain ⟨hcall, hown, hlength⟩ := hcells
  refine ⟨hlength, fun call h => ?_, fun name own call hsome h h' => ?_⟩
  · obtain rfl := Option.some.inj (hcall.symm.trans h)
    decide
  · obtain ⟨frame, hframe⟩ := Option.isSome_iff_exists.mp hsome
    obtain ⟨rfl, -⟩ := frame?_descending hframe
    obtain rfl := Option.some.inj (hown.symm.trans h)
    obtain rfl := Option.some.inj (hcall.symm.trans h')
    decide

lemma eq_one_of_declares_descending {k : Nat}
    (h : Declares { optimize := false } descending k "f") : k = 1 :=
  h.eq_of_frames (by decide +kernel)

lemma exists_deeper_descending {blocks : List Code} {n : Nat} {s : Spot}
    {A : List (Activation { optimize := false } descending blocks)}
    (hblocks : Blocks { optimize := false } descending blocks)
    (hrun : Runs { optimize := false } descending blocks .zero A s)
    (hmatched : Matched .zero A s) (x : Laid { optimize := false } descending blocks n)
    (hn : n = 0 ∨ n = 2) (hplace : s.place = place { optimize := false } descending blocks n)
    (hroom : ceiling A + 2 ≤ 65536) :
    ∃ a t, Runs { optimize := false } descending blocks .zero (a :: A) t ∧
      t.place = place { optimize := false } descending blocks 2 ∧ ceiling (a :: A) =
      ceiling A + 2 := by
  have hc : (compiled { optimize := false } descending).bench.Clean :=
    Structured.clean_of_hasErrors (by decide +kernel)
  have htokens : x.site.tokens = ["call", "f", "(", ")", ";"] := by
    rw [x.tokens]
    rcases hn with rfl | rfl
    · decide +kernel
    · decide +kernel
  have hnoDest : ¬ x.StoresPointer := x.not_storesPointer (by
    rw [CallSite.pointerName?, CallSite.assignIndex?, htokens]
    decide +kernel)
  obtain ⟨hname, hsize⟩ := frame?_descending (x.frame?_eq hc)
  obtain ⟨base, hsound⟩ := hrun.sound rfl hc fitsMachine_descending hblocks
  obtain ⟨k, t, hdeclares, hleads, hbody⟩ := hmatched.enters n x hplace (by rw [hsize]; exact hroom)
    fun hstores => absurd hstores hnoDest
  obtain rfl := eq_one_of_declares_descending (hname ▸ hdeclares)
  refine ⟨_, t, hrun.call x hplace (by rw [hsize]; exact hroom) (fun hstores =>
    absurd hstores hnoDest) hleads, hbody, ?_⟩
  rw [ceiling, Activation.size, hsize, hsound.call, Word.toNat_ofNat_of_lt (by omega)]

/-- The subroutine is called to any depth that there is room for. -/
theorem calls_and_returns_match_descending :
    ∃ blocks, Blocks { optimize := false } descending blocks ∧ ∀ depth, 6 + 2 * depth ≤ 65536 →
    ∃ A s, Runs { optimize := false } descending blocks .zero A s ∧
      A.length = depth ∧ Matched .zero A s := by
  have herrors : (compile { optimize := false } descending).hasErrors = false := by decide +kernel
  have hc := Structured.clean_of_hasErrors herrors
  have hfits := fitsMachine_descending
  obtain ⟨blocks, hblocks⟩ := exists_blocks { optimize := false } descending
  obtain ⟨hlaid, -, -, -, hruns⟩ :=
    calls_and_returns_match { optimize := false } descending rfl herrors hfits hblocks
  refine ⟨blocks, hblocks, fun depth hdepth => ?_⟩
  -- at every depth the run stands in front of the next call
  have hdeep : ∀ depth, 6 + 2 * depth ≤ 65536 → ∃ A s n,
      Runs { optimize := false } descending blocks .zero A s ∧ A.length = depth ∧
      ceiling A = 6 + 2 * depth ∧ (n = 0 ∨ n = 2) ∧
      s.place = place { optimize := false } descending blocks n := by
    intro depth
    induction depth with
    | zero =>
      intro _
      obtain ⟨m, d, hleads, -⟩ := leads_start hc hfits hblocks (Memory.zero.write 0 0) #[]
      have hceiling : ceiling ([] : List (Activation { optimize := false } descending blocks)) =
        6 := by
        rw [ceiling]
        decide +kernel
      have hwords : (compile { optimize := false } descending).words =
          emittedWords { optimize := false } descending := words_compile descending rfl
      rw [← hwords] at hleads
      exact ⟨[], _, 0, .start hleads, rfl, hceiling, .inl rfl, rfl⟩
    | succ depth ih =>
      intro hroom
      obtain ⟨A, s, n, hrun, hlength, hceiling, hn, hplace⟩ := ih (by omega)
      obtain ⟨x⟩ := hlaid n (by rcases hn with rfl | rfl <;> decide +kernel)
      obtain ⟨a, t, hrun', hplace', hceiling'⟩ := exists_deeper_descending hblocks hrun
        ((hruns .zero).2 A s hrun) x hn hplace (by omega)
      exact ⟨a :: A, t, 2, hrun', by rw [List.length_cons, hlength], by omega, .inr rfl, hplace'⟩
  obtain ⟨A, s, -, hrun, hlength, -⟩ := hdeep depth hdepth
  exact ⟨A, s, hrun, hlength, (hruns .zero).2 A s hrun⟩

/-- A program that moves its call stack over the scratch cell that the end of the subroutine
needs. -/
def misplaced : String := "my r; sub f() \x7b \x7d $6 = 2; call f();"

/-- A call that stores the address of its frame in the pointer to its destination. -/
def redirected : String := "my p; sub f() \x7b \x7d p = 3; call $p = f();"

/-- A subroutine that has the name of a cell of the call stack. -/
def shadowed : String := "my r; sub \"call[0]\"() \x7b r++; \x7d call \"call[0]\"();"

/-- A program that enters its subroutine without a call. -/
def intruding : String := "my p; my r; sub f() \x7b r++; \x7d $p = 3; p = 0;"

/-- Programs without errors in which calls and returns do not match. In the first one the end of the
subroutine finds the frame of the call active and both of its cells as the call has stored them, but
it does not go behind the call; the call of the second one does not enter the subroutine; the third
one calls its subroutine once, and the last one does not call it, but both of them go through it
again and again. -/
theorem returns_go_astray :
    ((compile { optimize := false } misplaced).hasErrors = false ∧
      ∃ blocks, Blocks { optimize := false } misplaced blocks ∧
        Tokens.peek (after { optimize := false } misplaced 4).bench.tokens = "call" ∧
        Tokens.peek (after { optimize := false } misplaced 2).bench.tokens = "\x7d" ∧
        let start := standing (compile { optimize := false } misplaced).words
          ⟨place { optimize := false } misplaced blocks 4, Memory.zero.write 6 2, #[]⟩ 0
        let body := place { optimize := false } misplaced blocks 2 + 1
        ((start.run 7).next = body ∧ (start.run 7).pending = none ∧
          (start.run 7).memory.read 4 = 2 ∧
          (start.run 7).memory.read 2 =
            UInt16.ofNat (place { optimize := false } misplaced blocks 4 + 7) ∧
          (start.run 7).memory.read 3 = Memory.zero.read 4) ∧
        (start.run 11).next = body ∧ (start.run 11).pending = none) ∧
    ((compile { optimize := false } redirected).hasErrors = false ∧
      ∃ blocks, Blocks { optimize := false } redirected blocks ∧
        let start := boot (compile { optimize := false } redirected).code .zero
        (start.run 11).isHalted = true ∧
          ∀ k < 12, (start.run k).next ≠ place { optimize := false } redirected blocks 2 + 1) ∧
    ((compile { optimize := false, callStackSize := 4 } shadowed).hasErrors = false ∧
      let start := boot (compile { optimize := false, callStackSize := 4 } shadowed).code .zero
      (start.run 200).isHalted = false ∧ (start.run 200).memory.read 3 = 13) ∧
    ((compile { optimize := false } intruding).hasErrors = false ∧
      let start := boot (compile { optimize := false } intruding).code .zero
      (start.run 200).isHalted = false ∧ (start.run 200).memory.read 4 = 25) := by
  refine ⟨⟨by decide +kernel, ?_⟩, ⟨by decide +kernel, ?_⟩, by decide +kernel, by decide +kernel⟩
  · have hafter : (after { optimize := false } misplaced 4).calls = [] ∧
        (compiled { optimize := false } misplaced).preamble.length +
          (after { optimize := false } misplaced 4).program.length = 8 ∧
        (after { optimize := false } misplaced 2).calls = [] ∧
        (compiled { optimize := false } misplaced).preamble.length +
          (after { optimize := false } misplaced 2).program.length = 3 := by decide +kernel
    obtain ⟨hcalls, hlength, hcalls', hlength'⟩ := hafter
    obtain ⟨blocks, hblocks⟩ := exists_blocks { optimize := false } misplaced
    refine ⟨blocks, hblocks, by decide +kernel, by decide +kernel, ?_⟩
    rw [hblocks.place_eq hcalls, hblocks.place_eq hcalls', hlength, hlength']
    decide +kernel
  · have hafter : (after { optimize := false } redirected 2).calls = [] ∧
        (compiled { optimize := false } redirected).preamble.length +
          (after { optimize := false } redirected 2).program.length = 3 := by decide +kernel
    obtain ⟨hcalls, hlength⟩ := hafter
    obtain ⟨blocks, hblocks⟩ := exists_blocks { optimize := false } redirected
    refine ⟨blocks, hblocks, ?_⟩
    rw [hblocks.place_eq hcalls, hlength]
    decide +kernel

end Session
end CogolToolchain
