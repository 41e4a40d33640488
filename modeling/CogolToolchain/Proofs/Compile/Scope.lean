import CogolToolchain.Compile.Declarator
import Mathlib.Tactic.Common

/-!
Looking up subroutines and declaring their parameters.
-/

namespace CogolToolchain
namespace Scope

variable {scope : Scope} {name name' : String} {frame : Frame}

lemma lookup_insertAssoc (frames : List (String × Frame)) :
    (insertAssoc name frame frames).lookup name' =
      if name' = name then some frame else frames.lookup name' := by
  induction frames with
  | nil =>
    by_cases h : name' = name
    · simp [insertAssoc, h]
    · have hne : (name' == name) = false := by simpa using h
      simp [insertAssoc, List.lookup_cons, h, hne]
  | cons entry frames ih =>
    obtain ⟨key, value⟩ := entry
    rw [insertAssoc]
    by_cases hkey : key = name
    · subst hkey
      by_cases h : name' = key
      · simp [h]
      · have hne : (name' == key) = false := by simpa using h
        simp [List.lookup_cons, h, hne]
    · rw [if_neg (by simpa using hkey), List.lookup_cons, List.lookup_cons, ih]
      by_cases h : name' = key
      · simp [h, hkey]
      · have hne : (name' == key) = false := by simpa using h
        simp [hne]

lemma frame?_insert : (scope.insert name frame).frame? name' =
    if name' = name then some frame else scope.frame? name' :=
  lookup_insertAssoc scope.subroutines

lemma frame?_modifyFrame {f : Frame → Frame} : (scope.modifyFrame name f).frame? name' =
    if name' = name then (scope.frame? name).map f else scope.frame? name' := by
  unfold modifyFrame
  rcases h : scope.frame? name with _ | frame
  · by_cases heq : name' = name
    · simp [heq, h]
    · simp [heq]
  · simp [frame?_insert]

lemma mem_insertAssoc {name : String} {frame : Frame} {frames : List (String × Frame)}
    {entry : String × Frame} (h : entry ∈ insertAssoc name frame frames) :
    entry = (name, frame) ∨ entry ∈ frames := by
  induction frames with
  | nil => exact .inl (by simpa [insertAssoc] using h)
  | cons first frames ih =>
    obtain ⟨key, value⟩ := first
    rw [insertAssoc] at h
    split at h
    · exact (List.mem_cons.mp h).imp_right (List.mem_cons_of_mem _)
    · rcases List.mem_cons.mp h with rfl | h
      · exact .inr List.mem_cons_self
      · exact (ih h).imp_right (List.mem_cons_of_mem _)

lemma mem_of_frame? {scope : Scope} {name : String} {frame : Frame}
    (h : scope.frame? name = some frame) : (name, frame) ∈ scope.subroutines := by
  obtain ⟨before, after, heq, -⟩ := List.lookup_eq_some_iff.mp h
  simp [heq]

lemma insert_insert (scope : Scope) (name : String) (frame frame' : Frame) :
    (scope.insert name frame).insert name frame' = scope.insert name frame' := by
  have hassoc : ∀ frames : List (String × Frame),
      insertAssoc name frame' (insertAssoc name frame frames) = insertAssoc name frame' frames := by
    intro frames
    induction frames with
    | nil => simp [insertAssoc]
    | cons entry frames ih =>
      obtain ⟨key, value⟩ := entry
      by_cases hkey : key = name
      · simp [insertAssoc, hkey]
      · simp [insertAssoc, hkey, ih]
  simp [insert, hassoc]

def within (scope : Scope) (name : String) (frame : Frame) : Scope :=
  { scope.insert name frame with enclosing := name :: scope.enclosing }

lemma frame?_within {name' : String} : (scope.within name frame).frame? name' =
    if name' = name then some frame else scope.frame? name' := frame?_insert

lemma modifyFrame_within (f : Frame → Frame) :
    (scope.within name frame).modifyFrame name f = scope.within name (f frame) := by
  have hinsert := congrArg subroutines (insert_insert scope name frame (f frame))
  rw [modifyFrame, frame?_within, if_pos rfl]
  simp only [within, insert] at hinsert ⊢
  rw [hinsert]

end Scope

def Frame.declare (frame : Frame) (name : String) : Declarator → Frame
  | .word => frame.declareWord name
  | .wordWithDefault value => frame.declareDefault name value
  | .array size values => frame.declareArray name size values

/-- The frame of a subroutine with the given parameters. -/
inductive Frame.Declared (name : String) (block : Block) : List (String × Declarator) → Frame → Prop
  | new : Declared name block [] (.new name block)
  | declare {params : List (String × Declarator)} {frame : Frame} {param : String}
      (declarator : Declarator) (h : Declared name block params frame)
      (hnew : frame.table.contains param = false) (hfree : isReserved param = false) :
      Declared name block (params ++ [(param, declarator)]) (frame.declare param declarator)

end CogolToolchain
