import CogolToolchain.Settings.Document

/-!
# TOML numbers, dates and truth values

Values without quotes or brackets, as words of letters, digits and the characters `+-_.:`. A number
may group its digits with single underscores. A date must exist in the calendar.
-/

namespace CogolToolchain
namespace Document
namespace Scalar

def ungroup? (isDigit : Char → Bool) : List Char → Option (List Char)
  | [] => none
  | [c] => if isDigit c then some [c] else none
  | c :: '_' :: cs => if isDigit c then (ungroup? isDigit cs).map (c :: ·) else none
  | c :: cs => if isDigit c then (ungroup? isDigit cs).map (c :: ·) else none

def digitValue (c : Char) : Nat :=
  if c.isDigit then c.toNat - '0'.toNat
  else if 'a' ≤ c ∧ c ≤ 'f' then c.toNat - 'a'.toNat + 10
  else c.toNat - 'A'.toNat + 10

def valueOf (base : Nat) (digits : List Char) : Nat :=
  digits.foldl (fun n c => base * n + digitValue c) 0

def isHexDigit (c : Char) : Bool :=
  c.isDigit || ('a' ≤ c && c ≤ 'f') || ('A' ≤ c && c ≤ 'F')

def isOctalDigit (c : Char) : Bool := '0' ≤ c && c ≤ '7'

def isBinaryDigit (c : Char) : Bool := c == '0' || c == '1'

/-- Splits a sign off a number; `true` stands for a minus. -/
def splitSign : List Char → Bool × List Char
  | '-' :: cs => (true, cs)
  | '+' :: cs => (false, cs)
  | cs => (false, cs)

/-- The digits of a decimal number without leading zeros. -/
def decimalDigits? (cs : List Char) : Option (List Char) := do
  let digits ← ungroup? Char.isDigit cs
  match digits with
  | '0' :: _ :: _ => none
  | _ => some digits

def checked64 (n : Int) : Option Int :=
  if -9223372036854775808 ≤ n ∧ n ≤ 9223372036854775807 then some n else none

def integer? : List Char → Option Int
  | '0' :: 'x' :: cs => (ungroup? isHexDigit cs).bind fun ds => checked64 (valueOf 16 ds)
  | '0' :: 'o' :: cs => (ungroup? isOctalDigit cs).bind fun ds => checked64 (valueOf 8 ds)
  | '0' :: 'b' :: cs => (ungroup? isBinaryDigit cs).bind fun ds => checked64 (valueOf 2 ds)
  | cs => do
    let (negative, cs) := splitSign cs
    let n := valueOf 10 (← decimalDigits? cs)
    checked64 (if negative then -n else n)

/-- Whether `digits * 10 ^ exponent` is so large that the nearest double is infinite. -/
def isInfinite (digits : Nat) (exponent : Int) : Bool :=
  let magnitude := (Nat.toDigits 10 digits).length + exponent
  if digits = 0 || magnitude < 300 then false
  else if 400 < magnitude then true
  else
    let bound := Nat.pow 2 1024 - Nat.pow 2 970
    if 0 ≤ exponent then bound ≤ digits * Nat.pow 10 exponent.toNat
    else bound * Nat.pow 10 (-exponent).toNat ≤ digits

def splitAt? (p : Char → Bool) (cs : List Char) : Option (List Char × List Char) :=
  match cs.span fun c => !p c with
  | (left, _ :: right) => some (left, right)
  | (_, []) => none

def exponent? : Option (List Char) → Option Int
  | none => some 0
  | some cs => do
    let (negative, cs) := splitSign cs
    let n := valueOf 10 (← ungroup? Char.isDigit cs)
    some (if negative then -n else n)

def fraction? : Option (List Char) → Option (List Char)
  | none => some []
  | some cs => ungroup? Char.isDigit cs

def isFloat (cs : List Char) : Bool :=
  let (negative, cs) := splitSign cs
  if cs == "inf".toList || cs == "nan".toList then true
  else
    let (mantissa, exponent) := match splitAt? (fun c => c == 'e' || c == 'E') cs with
      | some (left, right) => (left, some right)
      | none => (cs, none)
    let (whole, fraction) := match splitAt? (· == '.') mantissa with
      | some (left, right) => (left, some right)
      | none => (mantissa, none)
    match decimalDigits? whole, fraction? fraction, exponent? exponent with
    | some digits, some decimals, some e =>
      (fraction.isSome || exponent.isSome) &&
        (negative || !isInfinite (valueOf 10 (digits ++ decimals)) (e - decimals.length))
    | _, _, _ => false

def two? (a b : Char) : Option Nat :=
  if a.isDigit && b.isDigit then some (valueOf 10 [a, b]) else none

def daysOf (year month : Nat) : Nat :=
  if month = 2 then if year % 4 = 0 ∧ (year % 100 ≠ 0 ∨ year % 400 = 0) then 29 else 28
  else if [4, 6, 9, 11].contains month then 30
  else 31

def afterDate? : List Char → Option (List Char)
  | y1 :: y2 :: y3 :: y4 :: '-' :: m1 :: m2 :: '-' :: d1 :: d2 :: rest => do
    let year := 100 * (← two? y1 y2) + (← two? y3 y4)
    let month ← two? m1 m2
    let day ← two? d1 d2
    if 1 ≤ month ∧ month ≤ 12 ∧ 1 ≤ day ∧ day ≤ daysOf year month then some rest else none
  | _ => none

def afterTime? : List Char → Option (List Char)
  | h1 :: h2 :: ':' :: m1 :: m2 :: ':' :: s1 :: s2 :: rest => do
    let hour ← two? h1 h2
    let minute ← two? m1 m2
    let second ← two? s1 s2
    if 23 < hour ∨ 59 < minute ∨ 60 < second then none
    else
      match rest with
      | '.' :: c :: cs => if c.isDigit then some (cs.dropWhile Char.isDigit) else none
      | _ => some rest
  | _ => none

def isOffset : List Char → Bool
  | [] | ['Z'] | ['z'] => true
  | [sign, h1, h2, ':', m1, m2] =>
    (sign == '+' || sign == '-') && (two? h1 h2).any (· ≤ 23) && (two? m1 m2).any (· ≤ 59)
  | _ => false

def isZonedTime (cs : List Char) : Bool := (afterTime? cs).any isOffset

def isDate (cs : List Char) : Bool := afterDate? cs == some []

/-- Whether the text is a time, a date, or a date and a time joined by a `T`. -/
def isDateTime (cs : List Char) : Bool :=
  afterTime? cs == some [] ||
    match afterDate? cs with
    | some [] => true
    | some (c :: rest) => (c == 'T' || c == 't') && isZonedTime rest
    | none => false

def value? (cs : List Char) : Option Value :=
  if cs == "true".toList then some (.boolean true)
  else if cs == "false".toList then some (.boolean false)
  else
    match integer? cs with
    | some n => some (.integer n)
    | none => if isFloat cs || isDateTime cs then some .other else none

def isWordChar (c : Char) : Bool := c.isAlphanum || ['+', '-', '_', '.', ':'].contains c

end Scalar
end Document
end CogolToolchain
