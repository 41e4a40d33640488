import CogolToolchain.Compile.Resolution
import CogolToolchain.Proofs.Machine.Scratch

/-!
Code as the machine holds it once its symbols are resolved.
-/

namespace CogolToolchain
namespace Resolver

variable (r : Resolver)

def word (a : Operand) : WordOperand := (r.operand a).word

def words (code : Code) : List WordInstruction := (r.code code).map Instruction.word

lemma word_of_known {a : Operand} {n : Int} (h : a.value = .known n) : r.word a = a.word := by
  simp [word, operand, h]

@[simp] lemma word_known (mode : Mode) (n : Int) :
    r.word ⟨mode, .known n⟩ = ⟨mode, UInt16.ofInt n⟩ := rfl

@[simp] lemma word_constant (n : Int) : r.word (.constant n) = ⟨.constant, UInt16.ofInt n⟩ := rfl

@[simp] lemma word_programCounter : r.word .programCounter = ⟨.constant, 0⟩ := rfl

@[simp] lemma word_cell (t : Nat) : r.word (.cell t) = ⟨.address, UInt16.ofNat t⟩ := by
  rw [Operand.cell, word_known, Word.ofInt_wrap32, Word.ofInt_natCast]

@[simp] lemma word_cellDest (t : Nat) : r.word (.cellDest t) = ⟨.constant, UInt16.ofNat t⟩ := by
  rw [Operand.cellDest, word_known, Word.ofInt_wrap32, Word.ofInt_natCast]

@[simp] lemma word_through (t : Nat) : r.word (.through t) = ⟨.deref, UInt16.ofNat t⟩ := by
  rw [Operand.through, word_known, Word.ofInt_wrap32, Word.ofInt_natCast]

@[simp] lemma words_nil : r.words [] = [] := rfl

@[simp] lemma words_cons (i : Instruction) (code : Code) : r.words (i :: code) =
    ⟨i.opcode, r.word i.lhs, r.word i.rhs, r.word i.dest⟩ :: r.words code := rfl

@[simp] lemma words_append (p q : Code) : r.words (p ++ q) = r.words p ++ r.words q := by
  simp [words, code]

lemma words_cons_eq (i : Instruction) (code : Code) :
    r.words (i :: code) = r.words [i] ++ r.words code := rfl

@[simp] lemma length_words (p : Code) : (r.words p).length = p.length := by simp [words, code]

lemma mem_words {p : Code} {i : WordInstruction} : i ∈ r.words p ↔
    ∃ j ∈ p, i = ⟨j.opcode, r.word j.lhs, r.word j.rhs, r.word j.dest⟩ := by
  simp only [words, code, List.map_map, List.mem_map, Function.comp_apply, eq_comm (a := i)]
  rfl

lemma word_symbolic {mode : Mode} {symbol : Symbol} {n : Nat} (h : r.base? symbol = some n)
    (offset : Int) : r.word ⟨mode, .symbolic ⟨symbol, offset⟩⟩ =
    ⟨mode, UInt16.ofInt (n + offset)⟩ := by
  simp [word, operand, number?, h, Operand.word, Value.number?]

lemma word_unknown {mode : Mode} {symbol : Symbol} (h : r.base? symbol = none) (offset : Int) :
    r.word ⟨mode, .symbolic ⟨symbol, offset⟩⟩ = ⟨mode, 0⟩ := by
  simp [word, operand, number?, h, Operand.word, Value.number?]
  rfl

lemma word_label {l : Label} {n : Nat} (h : r.labels.lookup l = some n) (offset : Int) :
    r.word (.label l offset) = ⟨.constant, UInt16.ofInt (n + offset)⟩ := by
  have hbase : r.base? (.label l) = some n := h
  exact r.word_symbolic hbase offset

/-- The code stands in `prog` from place `k` on, and its labels stand for the instructions that
carry them. -/
structure Stands (r : Resolver) (prog : List WordInstruction) (k : Nat) (code : Code) : Prop where
  sits : Machine.Sits prog k (r.words code)
  labels : ∀ j i, code[j]? = some i → ∀ l ∈ i.tags, r.labels.lookup l = some (k + j)

lemma stands_append {prog : List WordInstruction} {k : Nat} {p q : Code} :
    r.Stands prog k (p ++ q) ↔ r.Stands prog k p ∧ r.Stands prog (k + p.length) q := by
  constructor
  · rintro ⟨hsits, hlabels⟩
    rw [words_append, Machine.sits_append, length_words] at hsits
    refine ⟨⟨hsits.1, fun j i hi => hlabels j i ?_⟩, ⟨hsits.2, fun j i hi l hl => ?_⟩⟩
    · rw [List.getElem?_append_left (List.getElem?_eq_some_iff.mp hi).1, hi]
    · rw [hlabels (p.length + j) i (by rw [List.getElem?_append_right (by omega)]; simpa using hi)
        l hl]
      rw [Nat.add_assoc]
  · rintro ⟨⟨hsits, hlabels⟩, ⟨hsits', hlabels'⟩⟩
    refine ⟨?_, fun j i hi l hl => ?_⟩
    · rw [words_append, Machine.sits_append, length_words]
      exact ⟨hsits, hsits'⟩
    · rcases Nat.lt_or_ge j p.length with hlt | hge
      · exact hlabels j i (by rwa [List.getElem?_append_left hlt] at hi) l hl
      · rw [List.getElem?_append_right hge] at hi
        rw [hlabels' _ i hi l hl]
        congr 1
        omega

lemma stands_cons {prog : List WordInstruction} {k : Nat} {i : Instruction} {code : Code} :
    r.Stands prog k (i :: code) ↔
      (prog[k]? = some ⟨i.opcode, r.word i.lhs, r.word i.rhs, r.word i.dest⟩ ∧
        ∀ l ∈ i.tags, r.labels.lookup l = some k) ∧ r.Stands prog (k + 1) code := by
  constructor
  · rintro ⟨hsits, hlabels⟩
    rw [words_cons, Machine.sits_cons] at hsits
    refine ⟨⟨hsits.1, hlabels 0 i rfl⟩, hsits.2, fun j j' hj l hl => ?_⟩
    rw [hlabels (j + 1) j' hj l hl, Nat.add_right_comm, Nat.add_assoc]
  · rintro ⟨⟨hi, htags⟩, hsits, hlabels⟩
    refine ⟨Machine.sits_cons.mpr ⟨hi, hsits⟩, fun j j' hj l hl => ?_⟩
    cases j with
    | zero =>
      obtain rfl : i = j' := Option.some.inj hj
      exact htags l hl
    | succ j =>
      rw [hlabels j j' hj l hl, Nat.add_right_comm, Nat.add_assoc]

lemma Stands.of_tagged {prog : List WordInstruction} {k : Nat} {i : Instruction} {label : Label}
    {code : Code} (h : r.Stands prog k (i.tagged label :: code)) :
    r.Stands prog k (i :: code) ∧ r.labels.lookup label = some k := by
  obtain ⟨⟨hi, htags⟩, hcode⟩ := r.stands_cons.mp h
  refine ⟨r.stands_cons.mpr ⟨⟨hi, fun l hl => htags l ?_⟩, hcode⟩, htags label ?_⟩
  · simp [Instruction.tagged, hl]
  · simp [Instruction.tagged]

lemma Stands.length_le {prog : List WordInstruction} {k : Nat} {code : Code}
    (h : r.Stands prog k code) (hcode : code ≠ []) : k + code.length ≤ prog.length := by
  have hlen := h.sits.length_le
  have hpos := List.length_pos_iff.mpr hcode
  rw [length_words, List.length_drop] at hlen
  omega

end Resolver
end CogolToolchain
