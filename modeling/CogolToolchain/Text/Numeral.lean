/-!
# Decimal numerals

A numeral is an optional sign and a non-empty run of ASCII digits. Leading zeros are allowed. A
value that does not fit the width asked for is no numeral of that width.
-/

namespace CogolToolchain
namespace Numeral

def digits? (cs : List Char) : Option Nat :=
  if cs.isEmpty || !cs.all Char.isDigit then none
  else some (cs.foldl (fun n c => 10 * n + (c.toNat - '0'.toNat)) 0)

def Fits32 (v : Int) : Prop := -2147483648 ≤ v ∧ v ≤ 2147483647

instance (v : Int) : Decidable (Fits32 v) := inferInstanceAs (Decidable (_ ∧ _))

def checked32 (v : Int) : Option Int := if Fits32 v then some v else none

/-- The number modulo 2^32, taken as a signed 32-bit number. -/
def wrap32 (v : Int) : Int := v.bmod 4294967296

/-- A signed 32-bit numeral: at most one sign, then digits. -/
def signed? (text : String) : Option Int :=
  match text.toList with
  | '-' :: cs => (digits? cs).bind fun n => checked32 (-(n : Int))
  | '+' :: cs => (digits? cs).bind fun n => checked32 n
  | cs => (digits? cs).bind fun n => checked32 n

/-- An unsigned 64-bit numeral: at most a plus sign, then digits. -/
def size? (text : String) : Option Nat :=
  let cs := match text.toList with
    | '+' :: cs => cs
    | cs => cs
  (digits? cs).filter (· < 18446744073709551616)

end Numeral
end CogolToolchain
