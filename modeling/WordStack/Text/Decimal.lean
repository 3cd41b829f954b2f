import WordStack.Text.Bytes

/-!
# Decimal numerals

Numbers are written in base ten with no leading zeros and a `-` in front of a negative one.
`readInt32?` reads a signed 32-bit numeral: at most one sign, then one or more ASCII digits, any
number of leading zeros, and a value that fits in 32 bits.
-/
namespace WordStack.Decimal

/-- The digits of a natural number. -/
def ofNat (n : Nat) : Bytes := (Nat.toDigits 10 n).map (·.toNat.toUInt8)

/-- The digits of an integer, behind a `-` if it is negative. -/
def ofInt : Int → Bytes
  | .ofNat n => ofNat n
  | .negSucc n => bytes "-" ++ ofNat (n + 1)

/-- An ASCII digit. -/
def isDigit (b : UInt8) : Bool := 48 ≤ b && b ≤ 57

/-- The value of a run of digits, read after a number whose value is `start`. -/
def value (start : Nat) (digits : Bytes) : Nat :=
  digits.foldl (fun n d => 10 * n + (d.toNat - 48)) start

/-- The value of a byte string that is one or more digits. -/
def readNat? (b : Bytes) : Option Nat :=
  if !b.isEmpty && b.all isDigit then some (value 0 b) else none

/-- The value of a byte string that is one or more digits behind at most one sign. -/
def readInt? : Bytes → Option Int
  | [] => none
  | b :: rest =>
    if b = 45 then (readNat? rest).map fun n => -(n : Int)
    else if b = 43 then (readNat? rest).map fun n => (n : Int)
    else (readNat? (b :: rest)).map fun n => (n : Int)

/-- The least and the greatest signed 32-bit number. -/
def int32Range : Int × Int := (-2147483648, 2147483647)

/-- The value of a signed numeral in the range of 32 bits. -/
def readInt32? (b : Bytes) : Option Int32 :=
  (readInt? b).bind fun n =>
    if int32Range.1 ≤ n ∧ n ≤ int32Range.2 then some (Int32.ofInt n) else none

end WordStack.Decimal
