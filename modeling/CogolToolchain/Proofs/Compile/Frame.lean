import CogolToolchain.Proofs.Compile.Effect

/-!
The layout of the frame of a subroutine.

The parameters follow the two cells of bookkeeping, each behind the cells of the one before it
(`Frame.Declared.slot`). The name of a parameter means its first cell
(`Frame.Shaped.address?_param`). A frame can also be kept as `Columns`: the names of its slots in
one list and their code in another, both extended with every parameter (`Frame.Declared.columns`).
-/

namespace CogolToolchain

namespace Declarator

def size : Declarator → Nat
  | word | wordWithDefault _ => 1
  | array size values => 1 + max size values.length

lemma size_pos (d : Declarator) : 0 < d.size := by cases d <;> simp only [size] <;> omega

def init (frame : Frame) (offset : Nat) : Declarator → Code
  | word => []
  | wordWithDefault value => frame.store offset value
  | array _ values =>
    (values.zipIdx.flatMap fun (value, i) => frame.store (offset + 1 + i) value) ++
      [frame.pointCallAt offset,
       { opcode := .add, lhs := callStackPointer.read, rhs := .constant 1,
         dest := callStackTarget }]

/-- What the cells of a parameter at `offset` hold once it is initialized, in a frame at `base`:
each offset comes with its word. The cell of an array points to its first element. -/
def contents (base : Word) (offset : Nat) : Declarator → List (Nat × Word)
  | word => []
  | wordWithDefault value => [(offset, UInt16.ofInt value)]
  | array _ values =>
    (values.zipIdx.map fun (value, i) => (offset + 1 + i, UInt16.ofInt value)) ++
      [(offset, base + UInt16.ofNat offset + 1)]

lemma init_congr {frame frame' : Frame} (h : frame.name = frame'.name) (offset : Nat)
    (d : Declarator) : d.init frame offset = d.init frame' offset := by
  have hpoint : frame.pointCallAt = frame'.pointCallAt := by
    funext n
    simp only [Frame.pointCallAt, Frame.base, h]
  have hstore : frame.store = frame'.store := by
    funext n value
    simp only [Frame.store, hpoint]
  cases d <;> simp only [init, hpoint, hstore]

lemma mem_contents {d : Declarator} {base w : Word} {offset n : Nat}
    (h : (n, w) ∈ d.contents base offset) : offset ≤ n ∧ n < offset + d.size := by
  cases d with
  | word => simp [contents] at h
  | wordWithDefault value =>
    obtain ⟨rfl, rfl⟩ : n = offset ∧ w = UInt16.ofInt value := by simpa [contents] using h
    simp only [size]
    omega
  | array count values =>
    simp only [contents, List.mem_append, List.mem_map, List.mem_singleton, Prod.mk.injEq] at h
    rcases h with ⟨⟨value, i⟩, hmem, rfl, -⟩ | ⟨rfl, -⟩
    · have hlt := List.snd_lt_of_mem_zipIdx hmem
      simp only [size, Nat.add_zero] at hlt ⊢
      omega
    · simp only [size]
      omega

end Declarator

def paramOffset (params : List (String × Declarator)) (j : Nat) : Nat :=
  2 + ((params.take j).map fun param => param.2.size).sum

section

variable {params : List (String × Declarator)} {j k : Nat}

@[simp] lemma paramOffset_zero (params : List (String × Declarator)) : paramOffset params 0 = 2 :=
  rfl

lemma paramOffset_append_left {more : List (String × Declarator)} (h : j ≤ params.length) :
    paramOffset (params ++ more) j = paramOffset params j := by
  rw [paramOffset, paramOffset, List.take_append_of_le_length h]

lemma paramOffset_succ {name : String} {d : Declarator} (h : params[j]? = some (name, d)) :
    paramOffset params (j + 1) = paramOffset params j + d.size := by
  simp [paramOffset, List.take_add_one, h, Nat.add_assoc]

lemma paramOffset_mono (params : List (String × Declarator)) (h : j ≤ k) :
    paramOffset params j ≤ paramOffset params k := by
  induction k, h using Nat.le_induction with
  | base => exact Nat.le_refl _
  | succ k hk ih =>
    refine ih.trans ?_
    rcases hget : params[k]? with _ | ⟨name, d⟩
    · simp [paramOffset, List.take_add_one, hget]
    · rw [paramOffset_succ hget]
      omega

lemma paramOffset_add_size_le {name : String} {d : Declarator} (h : params[j]? = some (name, d))
    (hjk : j < k) : paramOffset params j + d.size ≤ paramOffset params k :=
  paramOffset_succ h ▸ paramOffset_mono params hjk

lemma two_le_paramOffset (params : List (String × Declarator)) (j : Nat) :
    2 ≤ paramOffset params j :=
  Nat.le_add_right 2 _

end

namespace Frame

section

variable (frame : Frame) (param : String) (d : Declarator)

lemma name_declare : (frame.declare param d).name = frame.name := by cases d <;> rfl

lemma slots_declare :
    (frame.declare param d).slots = frame.slots ++ [⟨param, d.init frame frame.size⟩] := by
  cases d <;> rfl

lemma size_declare : (frame.declare param d).size = frame.size + d.size := by
  cases d with
  | word | wordWithDefault => exact SymbolTable.nextFree_declareWord frame.table param
  | array count values =>
    rw [Declarator.size, ← Nat.add_assoc]
    exact SymbolTable.nextFree_declareArray frame.table param count values.length

lemma extends_declare : frame.table.Extends (frame.declare param d).table := by
  cases d with
  | word | wordWithDefault => exact SymbolTable.extends_declareWord _ _
  | array => exact SymbolTable.extends_declareArray _ _ _ _

lemma address?_declare : (frame.declare param d).table.address? param = some frame.size := by
  cases d with
  | word | wordWithDefault => exact SymbolTable.address?_declareWord _ _
  | array => exact SymbolTable.address?_declareArray _ _ _ _

end

variable {name : String} {block : Block} {params : List (String × Declarator)}
  {frame : Frame} {j : Nat}
  {param : String} {d : Declarator}

lemma Declared.size_eq (h : frame.Declared name block params) :
    frame.size = paramOffset params params.length := by
  induction h with
  | new => rfl
  | @declare params frame param d _ _ _ ih =>
    rw [size_declare, ih, List.length_append, List.length_singleton,
      @paramOffset_succ _ _ param d (by simp),
      paramOffset_append_left (Nat.le_refl _)]

lemma Declared.length_slots (h : frame.Declared name block params) :
    frame.slots.length = 2 + params.length := by
  induction h with
  | new => rfl
  | declare d _ _ _ ih =>
    rw [slots_declare, List.length_append, ih, List.length_append, List.length_singleton,
      List.length_singleton]
    omega

lemma Declared.bookkeeping (h : frame.Declared name block params) :
    [⟨returnSlot, []⟩, ⟨previousSlot, []⟩] <+: frame.slots := by
  induction h with
  | new => exact List.prefix_refl _
  | declare d _ _ _ ih =>
    rw [slots_declare]
    exact ih.trans (List.prefix_append _ _)

lemma Declared.slot (h : frame.Declared name block params) (hj : params[j]? = some (param, d)) :
    frame.slots[2 + j]? = some ⟨param, d.init frame (paramOffset params j)⟩ := by
  induction h generalizing j param d with
  | new => simp at hj
  | @declare params frame param' d' hdecl _ _ ih =>
    rw [slots_declare, Declarator.init_congr (name_declare frame param' d')]
    have hlength := hdecl.length_slots
    rcases Nat.lt_or_ge j params.length with hlt | hge
    · rw [List.getElem?_append_left hlt] at hj
      rw [List.getElem?_append_left (by omega), paramOffset_append_left hlt.le]
      exact ih hj
    · rw [List.getElem?_append_right hge, List.getElem?_singleton] at hj
      split at hj
      · rename_i hzero
        obtain ⟨rfl, rfl⟩ : param' = param ∧ d' = d := by simpa using hj
        obtain rfl : j = params.length := by omega
        rw [List.getElem?_append_right (by omega), hlength, Nat.sub_self,
          paramOffset_append_left (Nat.le_refl _), hdecl.size_eq]
        rfl
      · simp at hj

/-! ### Columns -/

end Frame

/-- The slots of a frame as two lists, each of which is extended by itself. -/
structure Columns where
  params : List String := []
  inits : List Code := []
  size : Nat := 0

namespace Columns

def declare (frame : Frame) (c : Columns) (param : String × Declarator) : Columns where
  params := c.params ++ [param.1]
  inits := c.inits ++ [param.2.init frame c.size]
  size := c.size + param.2.size

/-- The columns of the slots of the bookkeeping and of the parameters. -/
def declareAll (frame : Frame) (params : List (String × Declarator)) : Columns :=
  ((Frame.returnSlot, .word) :: (Frame.previousSlot, .word) :: params).foldl (declare frame) {}

lemma declareAll_congr {frame frame' : Frame} (h : frame.name = frame'.name)
    (params : List (String × Declarator)) : declareAll frame params = declareAll frame' params := by
  have hdeclare : declare frame = declare frame' := by
    funext c param
    rw [declare, declare, Declarator.init_congr h]
  rw [declareAll, declareAll, hdeclare]

lemma declareAll_append (frame : Frame) (params : List (String × Declarator))
    (param : String × Declarator) :
    declareAll frame (params ++ [param]) = (declareAll frame params).declare frame param := by
  simp [declareAll]

lemma declareAll_spec (frame : Frame) (params : List (String × Declarator)) :
    let c := declareAll frame params
    c.params.length = c.inits.length ∧
      c.params = Frame.returnSlot :: Frame.previousSlot :: params.map Prod.fst ∧
      [[], []] <+: c.inits := by
  induction params using List.reverseRecOn with
  | nil => exact ⟨rfl, rfl, List.prefix_refl _⟩
  | append_singleton params param ih =>
    obtain ⟨hlength, hparams, hinits⟩ := ih
    rw [declareAll_append]
    exact ⟨by simp [declare, hlength], by simp [declare, hparams],
      hinits.trans (List.prefix_append _ _)⟩

end Columns

namespace Frame

variable {name : String} {block : Block} {params : List (String × Declarator)}
  {frame : Frame} {j : Nat}
  {param : String} {d : Declarator}

def columns (frame : Frame) : Columns where
  params := frame.slots.map Slot.name
  inits := frame.slots.map Slot.init
  size := frame.size

lemma zipWith_columns (frame : Frame) :
    List.zipWith Slot.mk frame.columns.params frame.columns.inits = frame.slots := by
  simp [columns, List.zipWith_map]

lemma columns_declare (frame : Frame) (param : String) (d : Declarator) :
    (frame.declare param d).columns = frame.columns.declare frame (param, d) := by
  simp [columns, Columns.declare, slots_declare, size_declare]

lemma Declared.columns (h : frame.Declared name block params) :
    frame.columns = .declareAll frame params := by
  induction h with
  | new => rfl
  | @declare params frame param d _ _ _ ih =>
    rw [columns_declare, ih, Columns.declareAll_congr (name_declare frame param d),
      Columns.declareAll_append]

lemma Declared.slots_eq (h : frame.Declared name block params) :
    frame.slots = [⟨returnSlot, []⟩, ⟨previousSlot, []⟩] ++
      params.zipIdx.map fun (param, j) => ⟨param.1, param.2.init frame (paramOffset params j)⟩ := by
  obtain ⟨rest, hrest⟩ := h.bookkeeping
  have hlength := h.length_slots
  rw [← hrest] at hlength ⊢
  congr 1
  refine List.ext_getElem? fun j => ?_
  rw [List.getElem?_map, List.getElem?_zipIdx, Nat.zero_add]
  rcases hj : params[j]? with _ | ⟨param, d⟩
  · rw [List.length_append] at hlength
    have hle : rest.length ≤ j := by
      have hparams := List.getElem?_eq_none_iff.mp hj
      simp only [List.length_cons, List.length_nil] at hlength
      omega
    rw [List.getElem?_eq_none hle]
    rfl
  · have hslot := h.slot hj
    rw [← hrest, List.getElem?_append_right (by simp)] at hslot
    simpa using hslot

lemma Declared.cell (h : frame.Declared name block params) (hj : params[j]? = some (param, d)) :
    frame.table.cells[paramOffset params j]? = some param := by
  induction h generalizing j param d with
  | new => simp at hj
  | @declare params frame param' d' hdecl hnew _ ih =>
    rcases Nat.lt_or_ge j params.length with hlt | hge
    · rw [List.getElem?_append_left hlt] at hj
      rw [paramOffset_append_left hlt.le]
      exact (extends_declare frame param' d').getElem?_eq_some (ih hj)
    · rw [List.getElem?_append_right hge, List.getElem?_singleton] at hj
      split at hj
      · obtain ⟨rfl, rfl⟩ : param' = param ∧ d' = d := by simpa using hj
        obtain rfl : j = params.length := by omega
        rw [paramOffset_append_left (Nat.le_refl _), ← hdecl.size_eq]
        exact SymbolTable.getElem?_of_address? (address?_declare frame param' d')
      · simp at hj

/-- The frame has the slots and the cells of a subroutine `name` with the parameters `params`. The
types of the parameters may have changed since they were declared. -/
structure Shaped (name : String) (params : List (String × Declarator)) (frame : Frame) : Prop where
  name_eq : frame.name = name
  declared : ∃ first, Declared name frame.block params first ∧ frame.slots = first.slots ∧
    frame.table.cells = first.table.cells

lemma Shaped.setType (h : frame.Shaped name params) (param : String) (type : VarType) :
    Shaped name params { frame with table := frame.table.setType param type } := by
  obtain ⟨first, declared, hslots, hcells⟩ := h.declared
  refine ⟨h.name_eq, first, declared, hslots, ?_⟩
  rw [← hcells]
  unfold SymbolTable.setType
  split <;> rfl

lemma Shaped.size_eq (h : frame.Shaped name params) :
    frame.size = paramOffset params params.length := by
  obtain ⟨first, hdecl, -, hcells⟩ := h.declared
  rw [← hdecl.size_eq, size, size, SymbolTable.nextFree, SymbolTable.nextFree, hcells]

lemma Shaped.one_lt_size (h : frame.Shaped name params) : 1 < frame.size := by
  rw [h.size_eq]
  exact two_le_paramOffset _ _

lemma Shaped.param_of_slot (h : frame.Shaped name params) {slot : Slot}
    (hj : frame.slots[2 + j]? = some slot) : ∃ d, params[j]? = some (slot.name, d) := by
  obtain ⟨first, hdecl, hslots, -⟩ := h.declared
  rw [hslots] at hj
  have hlt := (List.getElem?_eq_some_iff.mp hj).1
  rw [hdecl.length_slots] at hlt
  have hget : params[j]? = some (params[j].1, params[j].2) := List.getElem?_eq_getElem (by omega)
  rw [hdecl.slot hget, Option.some.injEq] at hj
  exact ⟨params[j].2, by rw [hget, ← hj]⟩

lemma Shaped.address?_param (h : frame.Shaped name params)
    (hnodup : frame.table.cells.toList.Nodup) (hj : params[j]? = some (param, d)) :
    frame.table.address? param = some (paramOffset params j) := by
  obtain ⟨first, hdecl, -, hcells⟩ := h.declared
  rw [SymbolTable.address?_of_nodup hnodup, hcells]
  exact hdecl.cell hj

lemma Shaped.offset_add_size_le (h : frame.Shaped name params) (hj : params[j]? = some (param, d)) :
    paramOffset params j + d.size ≤ frame.size := by
  rw [h.size_eq]
  exact paramOffset_add_size_le hj (List.getElem?_eq_some_iff.mp hj).1

end Frame
end CogolToolchain
