/-!
# Double precision

A number of double precision is a whole number of at most 53 bits times a power of two. Products
and quotients are rounded to the nearest such number, and half way between two of them to the even
one. Exponents have no bounds: a number that is far too small or too large for the usual format
still has its full precision here.

* `round_of_lt`: a whole number of at most 53 bits is not changed by rounding.
* `shiftToEven_le`, `le_shiftToEven`: rounding is off by at most one half.
-/
namespace WordStack

/-- The number `mantissa` times two to the power of `exponent`. -/
structure Double where
  mantissa : Nat
  exponent : Int
  deriving DecidableEq, Repr

namespace Double

/-- How many bits are kept. -/
def precision : Nat := 53

/-- A number without its last binary places, rounded to the nearest whole number, and half way to
the even one. -/
def shiftToEven (n places : Nat) : Nat :=
  let quotient := n >>> places
  let unit := 1 <<< places
  let rest := n % unit
  if 2 * rest < unit then quotient
  else if 2 * rest = unit then quotient + quotient % 2
  else quotient + 1

/-- A whole number times a power of two, rounded. -/
def round (n : Nat) (exponent : Int) : Double :=
  let places := n.log2 + 1 - precision
  { mantissa := shiftToEven n places, exponent := exponent + places }

/-- A whole number, rounded. -/
def ofNat (n : Nat) : Double := round n 0

/-- The rounded product. -/
def mul (a b : Double) : Double := round (a.mantissa * b.mantissa) (a.exponent + b.exponent)

/-- The rounded quotient. It is computed to more places than are kept, and behind these stands one
more that tells whether anything is left, so that rounding sees on which side of a half it is. -/
def div (a b : Double) : Double :=
  let places := precision + 2 + b.mantissa.log2
  let n := a.mantissa <<< places
  let last := if n % b.mantissa = 0 then 0 else 1
  round (2 * (n / b.mantissa) + last) (a.exponent - b.exponent - places - 1)

/-- The whole part. -/
def floor (a : Double) : Nat :=
  if 0 ≤ a.exponent then a.mantissa <<< a.exponent.toNat else a.mantissa >>> (-a.exponent).toNat

theorem shiftToEven_zero (n : Nat) : shiftToEven n 0 = n := by
  simp [shiftToEven, Nat.mod_one]

theorem shiftToEven_le (n places : Nat) :
    2 * (shiftToEven n places * (1 <<< places)) ≤ 2 * n + 1 <<< places := by
  have h := Nat.div_add_mod n (1 <<< places)
  have hshift : n >>> places = n / (1 <<< places) := by
    rw [Nat.shiftRight_eq_div_pow, Nat.one_shiftLeft]
  simp only [shiftToEven, hshift]
  generalize 1 <<< places = unit at *
  generalize n / unit = q at *
  have hmul : (q + 1) * unit = unit * q + unit := by rw [Nat.add_mul, Nat.mul_comm]; simp
  have hq : q * unit = unit * q := Nat.mul_comm ..
  split
  · omega
  · split
    · rcases Nat.mod_two_eq_zero_or_one q with he | ho
      · rw [he, Nat.add_zero]; omega
      · rw [ho]; omega
    · omega

theorem le_shiftToEven (n places : Nat) :
    2 * n ≤ 2 * (shiftToEven n places * (1 <<< places)) + 1 <<< places := by
  have h := Nat.div_add_mod n (1 <<< places)
  have hlt : n % (1 <<< places) < 1 <<< places := by
    rw [Nat.one_shiftLeft]
    exact Nat.mod_lt n (Nat.two_pow_pos places)
  have hshift : n >>> places = n / (1 <<< places) := by
    rw [Nat.shiftRight_eq_div_pow, Nat.one_shiftLeft]
  simp only [shiftToEven, hshift]
  generalize 1 <<< places = unit at *
  generalize n / unit = q at *
  have hmul : (q + 1) * unit = unit * q + unit := by rw [Nat.add_mul, Nat.mul_comm]; simp
  have hq : q * unit = unit * q := Nat.mul_comm ..
  split
  · omega
  · split
    · rcases Nat.mod_two_eq_zero_or_one q with he | ho
      · rw [he, Nat.add_zero]; omega
      · rw [ho]; omega
    · omega

theorem round_of_lt {n : Nat} (exponent : Int) (h : n.log2 < precision) :
    round n exponent = { mantissa := n, exponent } := by
  have hp : n.log2 + 1 - precision = 0 := by omega
  simp [round, hp, shiftToEven_zero]

end Double

end WordStack
