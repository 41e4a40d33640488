import CogolToolchain.Machine.Basic

/-!
# Noise

A machine that has just been switched on holds arbitrary words in its cells. Noise stands in for
them: a linear congruential sequence that a seed determines.
-/

namespace CogolToolchain
namespace Noise

def next (s : UInt32) : UInt32 := s * 1664525 + 1013904223

def word (s : UInt32) : Word := (s >>> 16).toUInt16

/-- Writes noise to the cells from `address` on, `count` of them; `s` is the state before. -/
def fill (m : Memory) (address : Nat) (s : UInt32) : Nat → Memory
  | 0 => m
  | count + 1 =>
    let s := next s
    fill (m.write (UInt16.ofNat address) (word s)) (address + 1) s count

/-- A memory full of noise, but for the program counter and the display, which hold zero. -/
def memory (seed : Nat) : Memory :=
  ((fill .zero 0 (UInt32.ofNat seed) 65536).write 0 0).write 1 0

end Noise

def Machine.randomize (m : Machine) (seed : Nat) : Machine := { m with memory := Noise.memory seed }

end CogolToolchain
