/-
Numerals: an optional plus sign and at least one digit of the base, read as a number that must not
exceed a bound. Leading zeros are allowed. Signed numerals may carry a minus sign instead.
-/
namespace TapeMachine.Text

def digitValue? (base : Nat) (c : Char) : Option Nat :=
  let value :=
    if '0' ≤ c ∧ c ≤ '9' then c.toNat - '0'.toNat
    else if 'a' ≤ c ∧ c ≤ 'z' then c.toNat - 'a'.toNat + 10
    else if 'A' ≤ c ∧ c ≤ 'Z' then c.toNat - 'A'.toNat + 10
    else base
  if value < base then some value else none

def digitsValue? (base : Nat) (digits : List Char) : Option Nat :=
  if digits.isEmpty then none
  else digits.foldlM (fun total c => (digitValue? base c).map (total * base + ·)) 0

def unsigned : List Char → List Char
  | '+' :: digits => digits
  | digits => digits

def numeral? (base bound : Nat) (s : List Char) : Option Nat :=
  (digitsValue? base (unsigned s)).filter (· ≤ bound)

def maxWord32 : Nat := 0xFFFF_FFFF

def maxWord64 : Nat := 0xFFFF_FFFF_FFFF_FFFF

def decimal? (bound : Nat) (s : List Char) : Option Nat := numeral? 10 bound s

def signedDecimal? : List Char → Option Int
  | '-' :: digits => (digitsValue? 10 digits).map fun value => -(value : Int)
  | s => (digitsValue? 10 (unsigned s)).map Int.ofNat

/-- A signed numeral for a number from zero to a bound. Zero is in that range with a minus sign as
well. -/
def signedDecimalUpTo? (bound : Nat) (s : List Char) : Option Nat :=
  ((signedDecimal? s).bind Int.toNat?).filter (· ≤ bound)

example : decimal? 99 "+007".toList = some 7 := by decide
example : decimal? 99 "100".toList = none := by decide
example : decimal? 99 "+".toList = none := by decide
example : decimal? 99 "-0".toList = none := by decide
example : signedDecimalUpTo? 99 "-00".toList = some 0 := by decide
example : signedDecimalUpTo? 99 "-1".toList = none := by decide
example : signedDecimalUpTo? 99 "-+0".toList = none := by decide
example : numeral? 16 255 "fF".toList = some 255 := by decide

end TapeMachine.Text
