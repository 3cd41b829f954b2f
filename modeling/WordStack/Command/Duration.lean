import WordStack.Double
import WordStack.Text.Decimal

/-!
# Durations

A duration is written as numbers with units, like `1h30m` or `-1.5s`, behind an optional sign; a
lone `0` needs no unit. It is read in nanoseconds. A number may have a fraction, which is converted
to nanoseconds in double precision; of the result, what is below a nanosecond is dropped. So a
fraction of very many nines counts as a whole.

Nanoseconds are added up in a 64-bit word, and no term and no sum may be greater than half of the
words. Two terms of exactly one half wrap around to nothing.
-/
namespace WordStack.Duration

/-- The units and their nanoseconds. -/
def units : List (Bytes × Nat) :=
  [(bytes "ns", 1), (bytes "us", 1000), (bytes "µs", 1000), (bytes "μs", 1000),
    (bytes "ms", 1000000), (bytes "s", 1000000000), (bytes "m", 60000000000),
    (bytes "h", 3600000000000)]

/-- The nanoseconds of a unit. -/
def unit? (name : Bytes) : Option Nat := units.lookup name

/-- The number of signed 64-bit words that are not negative, which is half of all words. -/
def wordLimit : Nat := 9223372036854775808

/-- A byte that belongs to a number. -/
def isNumeric (b : UInt8) : Bool := b == 46 || Decimal.isDigit b

/-- The value of the digits behind a point and the power of ten they are divided by. Digits that
would take the value past 63 bits are dropped. -/
def fraction (digits : Bytes) : Nat × Double :=
  (digits.foldl (fun (value, scale, full) d =>
    let next := 10 * value + (d.toNat - 48)
    if full || (wordLimit - 1) / 10 < value || wordLimit < next then (value, scale, true)
    else (next, scale.mul (.ofNat 10), false)) (0, .ofNat 1, false)) |>
      fun (value, scale, _) => (value, scale)

/-- A number with its unit: the digits before and behind the point, and the name of the unit. -/
structure Term where
  whole : Bytes
  part : Bytes
  unit : Bytes
  deriving DecidableEq, Repr

/-- The term at the front of a text, and what follows it. -/
def splitTerm (b : Bytes) : Term × Bytes :=
  let whole := b.takeWhile Decimal.isDigit
  let (part, behind) :=
    match b.dropWhile Decimal.isDigit with
    | 46 :: tail => (tail.takeWhile Decimal.isDigit, tail.dropWhile Decimal.isDigit)
    | tail => ([], tail)
  ({ whole, part, unit := behind.takeWhile (!isNumeric ·) }, behind.dropWhile (!isNumeric ·))

/-- The nanoseconds of a term. It needs a digit and a unit. -/
def Term.nanoseconds? (t : Term) : Option Nat :=
  if t.whole.isEmpty && t.part.isEmpty then none
  else
    (unit? t.unit).bind fun unit =>
      let v := Decimal.value 0 t.whole
      let (f, scale) := fraction t.part
      let total := v * unit + ((Double.ofNat f).mul ((Double.ofNat unit).div scale)).floor
      if wordLimit / unit < v || wordLimit < total then none else some total

/-- The terms of a duration added up. Each term uses up some of the text. -/
def terms? (start : Nat) (b : Bytes) : Option Nat :=
  if b.isEmpty then some start
  else
    (splitTerm b).1.nanoseconds?.bind fun n =>
      if _h : (splitTerm b).2.length < b.length then
        let sum := (start + n) % (2 * wordLimit)
        if wordLimit < sum then none else terms? sum (splitTerm b).2
      else none
termination_by b.length

/-- The nanoseconds of a duration without a sign. -/
def magnitude? (b : Bytes) : Option Nat :=
  if b = bytes "0" then some 0 else if b.isEmpty then none else terms? 0 b

/-- The nanoseconds of a duration. -/
def read? : Bytes → Option Int
  | [] => none
  | b :: rest =>
    if b = 45 then (magnitude? rest).map fun n => -(n : Int)
    else
      (magnitude? (if b = 43 then rest else b :: rest)).bind fun n =>
        if n < wordLimit then some (n : Int) else none

end WordStack.Duration
