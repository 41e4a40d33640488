import CogolToolchain.Layout.ScratchPool
import Mathlib.Data.List.Nodup
import Mathlib.Tactic.Common

/-!
The scratch pool as a set of addresses, some of which are in use.
-/

namespace CogolToolchain
namespace ScratchPool

def addresses (p : ScratchPool) : List Nat := p.cells.map (·.address)

def Busy (p : ScratchPool) (a : Nat) : Prop := ∃ c ∈ p.cells, c.address = a ∧ c.busy = true

variable {p p' : ScratchPool} {a t : Nat}

lemma Busy.mem_addresses (h : p.Busy a) : a ∈ p.addresses := by
  obtain ⟨c, hc, rfl, -⟩ := h
  exact List.mem_map_of_mem hc

@[simp] lemma addresses_add (p : ScratchPool) (t : Nat) (busy : Bool) :
    (p.add t busy).addresses = p.addresses ++ [t] := by simp [addresses, add]

lemma busy_add : (p.add t true).Busy a ↔ p.Busy a ∨ a = t := by
  simp [Busy, add, or_and_right, exists_or, @eq_comm _ a t]

lemma takeFree_eq_some {cells cells' : List ScratchCell} (h : takeFree cells = some (t, cells')) :
    cells'.map (·.address) = cells.map (·.address) ∧ (⟨t, false⟩ : ScratchCell) ∈ cells ∧
      ∀ c : ScratchCell, c.busy = true → (c ∈ cells' ↔ c ∈ cells ∨ c = ⟨t, true⟩) := by
  induction cells generalizing cells' with
  | nil => simp [takeFree] at h
  | cons cell rest ih =>
    rw [takeFree] at h
    by_cases hbusy : cell.busy
    · simp only [hbusy, ↓reduceIte, Option.map_eq_some_iff, Prod.mk.injEq, Prod.exists] at h
      obtain ⟨a, rest', hrest, rfl, rfl⟩ := h
      obtain ⟨hmap, hmem, hiff⟩ := ih hrest
      refine ⟨by simp [hmap], List.mem_cons_of_mem _ hmem, fun c hc => ?_⟩
      rw [List.mem_cons, List.mem_cons, hiff c hc, or_assoc]
    · simp only [hbusy, Bool.false_eq_true, ↓reduceIte, Option.some.injEq, Prod.mk.injEq] at h
      obtain ⟨rfl, rfl⟩ := h
      obtain ⟨a, busy⟩ := cell
      obtain rfl : busy = false := by simpa using hbusy
      refine ⟨rfl, by simp, fun c hc => ?_⟩
      have hne : c ≠ ⟨a, false⟩ := by
        rintro rfl
        simp at hc
      simp [hne, or_comm]

/-- The cell that is taken was free, and is the only one whose use changes. -/
lemma acquire?_eq_some (hp : p.addresses.Nodup) (h : p.acquire? = some (t, p')) :
    p'.addresses = p.addresses ∧ t ∈ p.addresses ∧ ¬ p.Busy t ∧
      ∀ a, p'.Busy a ↔ p.Busy a ∨ a = t := by
  simp only [acquire?, Option.map_eq_some_iff, Prod.mk.injEq, Prod.exists] at h
  obtain ⟨a, cells, hcells, rfl, rfl⟩ := h
  obtain ⟨hmap, hmem, hiff⟩ := takeFree_eq_some hcells
  refine ⟨hmap, List.mem_map_of_mem hmem, ?_, fun b => ?_⟩
  · rintro ⟨c, hc, hca, hbusy⟩
    obtain rfl := List.inj_on_of_nodup_map hp hc hmem hca
    simp at hbusy
  · constructor
    · rintro ⟨c, hc, rfl, hbusy⟩
      rcases (hiff c hbusy).mp hc with hc | rfl
      · exact .inl ⟨c, hc, rfl, hbusy⟩
      · exact .inr rfl
    · rintro (⟨c, hc, rfl, hbusy⟩ | rfl)
      · exact ⟨c, (hiff c hbusy).mpr (.inl hc), rfl, hbusy⟩
      · exact ⟨⟨b, true⟩, (hiff _ rfl).mpr (.inr rfl), rfl, rfl⟩

lemma map_address_free (t : Nat) (cells : List ScratchCell) :
    (free t cells).map (·.address) = cells.map (·.address) := by
  induction cells with
  | nil => rfl
  | cons cell rest ih =>
    rw [free]
    split
    · rfl
    · simp [ih]

@[simp] lemma addresses_release (p : ScratchPool) (t : Nat) :
    (p.release t).addresses = p.addresses := map_address_free t p.cells

lemma mem_free {cells : List ScratchCell} (hn : (cells.map (·.address)).Nodup) {c : ScratchCell}
    (hc : c.busy = true) : c ∈ free t cells ↔ c ∈ cells ∧ c.address ≠ t := by
  induction cells with
  | nil => simp [free]
  | cons cell rest ih =>
    rw [List.map_cons, List.nodup_cons] at hn
    rw [free]
    split
    · rename_i heq
      subst heq
      have hne : c ≠ { cell with busy := false } := by
        rintro rfl
        simp at hc
      rw [List.mem_cons, List.mem_cons]
      constructor
      · rintro (h | h)
        · exact absurd h hne
        · exact ⟨.inr h, fun heq => hn.1 (heq ▸ List.mem_map_of_mem h)⟩
      · rintro ⟨rfl | h, hne'⟩
        · exact absurd rfl hne'
        · exact .inr h
    · rename_i hne
      rw [List.mem_cons, List.mem_cons, ih hn.2]
      constructor
      · rintro (rfl | h)
        · exact ⟨.inl rfl, hne⟩
        · exact ⟨.inr h.1, h.2⟩
      · rintro ⟨rfl | h, h'⟩
        · exact .inl rfl
        · exact .inr ⟨h, h'⟩

lemma busy_release (hp : p.addresses.Nodup) : (p.release t).Busy a ↔ p.Busy a ∧ a ≠ t := by
  constructor
  · rintro ⟨c, hc, rfl, hbusy⟩
    obtain ⟨hmem, hne⟩ := (mem_free hp hbusy).mp hc
    exact ⟨⟨c, hmem, rfl, hbusy⟩, hne⟩
  · rintro ⟨⟨c, hc, rfl, hbusy⟩, hne⟩
    exact ⟨c, (mem_free hp hbusy).mpr ⟨hc, hne⟩, rfl, hbusy⟩

@[simp] lemma addresses_foldl_release (p : ScratchPool) (ts : List Nat) :
    (ts.foldl release p).addresses = p.addresses := by
  induction ts generalizing p with
  | nil => rfl
  | cons t ts ih => rw [List.foldl_cons, ih, addresses_release]

lemma busy_foldl_release (hp : p.addresses.Nodup) (ts : List Nat) :
    (ts.foldl release p).Busy a ↔ p.Busy a ∧ a ∉ ts := by
  induction ts generalizing p with
  | nil => simp
  | cons t ts ih =>
    rw [List.foldl_cons, ih (by rwa [addresses_release]), busy_release hp, List.mem_cons]
    tauto

@[simp] lemma addresses_releaseAll (p : ScratchPool) : p.releaseAll.addresses = p.addresses := by
  simp [addresses, releaseAll, Function.comp_def]

end ScratchPool
end CogolToolchain
