import WordStack.Text.Decimal
import WordStack.Text.Quoted

/-!
# Layouts

A layout says how a text or a number is written into a message: in how many columns, with how many
digits or characters, in which of several forms, and on which side it is filled up. Columns are
counted in characters, and a byte that is part of no character counts as one.

Filling is done with blanks, or with zeros if that is asked for and the value stands on the right.
Zeros in front of a number come behind its sign, and a number with an explicit count of digits is
filled with blanks only.
-/
namespace WordStack

/-- How a value is written. -/
structure Layout where
  /-- The other form of the value, such as a base in front of a number. -/
  sharp : Bool := false
  /-- Fill with zeros. -/
  zero : Bool := false
  /-- Write the sign of every number, and only ASCII in quoted text. -/
  plus : Bool := false
  /-- Fill on the right. -/
  minus : Bool := false
  /-- Leave a blank in place of a positive sign. -/
  space : Bool := false
  /-- Write the value as a literal. -/
  literal : Bool := false
  /-- The least number of columns. -/
  width : Option Nat := none
  /-- The least number of digits of a number, or the greatest number of characters of a text. -/
  precision : Option Nat := none
  deriving DecidableEq, Repr

namespace Layout

/-- Filling of some columns. -/
def filling (l : Layout) (columns : Nat) : Bytes :=
  List.replicate columns (if l.zero && !l.minus then 48 else 32)

/-- A text filled up to columns of which it is known how many it takes. -/
def fit (l : Layout) (columns : Nat) (text : Bytes) : Bytes :=
  let missing := l.filling (l.width.getD 0 - columns)
  if l.minus then text ++ missing else missing ++ text

/-- A text filled up to the width. -/
def pad (l : Layout) (text : Bytes) : Bytes := l.fit (Utf8.pieces text).length text

/-- A text filled up with blanks. -/
def padBlank (l : Layout) (text : Bytes) : Bytes := { l with zero := false }.pad text

/-- A text cut off behind the precision. -/
def clip (l : Layout) (text : Bytes) : Bytes :=
  match l.precision with
  | none => text
  | some n => ((Utf8.pieces text).take n).flatMap Utf8.Piece.toBytes

/-- A text. -/
def text (l : Layout) (t : Bytes) : Bytes := l.pad (l.clip t)

@[simp]
theorem text_default (t : Bytes) : ({} : Layout).text t = t := by
  simp [text, clip, pad, fit, filling]

/-- A text in quotes, or between grave accents in the other form if that is possible. -/
def quoted (l : Layout) (t : Bytes) : Bytes :=
  let t := l.clip t
  if l.sharp && Quoted.isPlain t then l.pad (Quoted.grave ++ t ++ Quoted.grave)
  else l.pad (Quoted.quoteAs { ascii := l.plus } t)

/-- The capital of a small letter. -/
def capital (b : UInt8) : UInt8 := if 97 ≤ b && b ≤ 122 then b - 32 else b

/-- Digits with small or capital letters. -/
def inCase (capitals : Bool) (digits : Bytes) : Bytes :=
  if capitals then digits.map capital else digits

/-- The bytes of a text as pairs of hexadecimal digits. -/
def hexText (l : Layout) (capitals : Bool) (t : Bytes) : Bytes :=
  let pairs := (t.take (l.precision.getD t.length)).map fun b => Quoted.hex 2 b.toNat
  let base := if l.sharp then bytes "0x" else []
  let digits :=
    if pairs.isEmpty then []
    else if l.space then joinWith (bytes " ") (pairs.map (base ++ ·))
    else base ++ pairs.flatten
  l.fit digits.length (inCase capitals digits)

/-- The digits of a number in some base. -/
def digits (base n : Nat) : Bytes := (Nat.toDigits base n).map (·.toNat.toUInt8)

/-- The bases in which numbers are written, and what stands in front of the digits of each: in the
other form, or always. -/
inductive Base where
  | decimal
  | binary
  | octal
  | markedOctal
  | hexadecimal
  deriving DecidableEq, Repr

/-- The number behind a base. -/
def Base.toNat : Base → Nat
  | decimal => 10
  | binary => 2
  | octal | markedOctal => 8
  | hexadecimal => 16

/-- Digits behind the mark of their base. -/
def Base.marked (base : Base) (sharp : Bool) (ds : Bytes) : Bytes :=
  let octal := if sharp && ds.head? != some 48 then 48 :: ds else ds
  match base with
  | .decimal => ds
  | .binary => if sharp then bytes "0b" ++ ds else ds
  | .octal => octal
  | .markedOctal => bytes "0o" ++ octal
  | .hexadecimal => if sharp then bytes "0x" ++ ds else ds

/-- What stands in front of a number to tell its sign. -/
def sign (l : Layout) (n : Int) : Bytes :=
  if n < 0 then bytes "-" else if l.plus then bytes "+" else if l.space then bytes " " else []

/-- The least number of digits of a number: the precision, or as many as fill the width. -/
def leastDigits (l : Layout) (n : Int) : Nat :=
  match l.precision with
  | some p => p
  | none => if l.zero && !l.minus then l.width.getD 0 - (l.sign n).length else 0

/-- A number. Zero with a precision of zero has no digits and no sign. -/
def integer (l : Layout) (base : Base) (capitals : Bool) (n : Int) : Bytes :=
  if l.precision = some 0 ∧ n = 0 then l.padBlank []
  else
    let ds := digits base.toNat n.natAbs
    let ds := List.replicate (l.leastDigits n - ds.length) 48 ++ ds
    l.padBlank (l.sign n ++ inCase capitals (base.marked l.sharp ds))

/-- The character with a code point, or the one that stands in place of it if there is none. -/
def charOf (n : Int) : Char :=
  if 0 ≤ n ∧ n.toNat.isValidChar then Char.ofNat n.toNat else Utf8.replacement

/-- The character with a code point. -/
def character (l : Layout) (n : Int) : Bytes := l.pad (Utf8.encode (charOf n))

/-- The character with a code point, in quotes. -/
def quotedCharacter (l : Layout) (n : Int) : Bytes :=
  l.pad (Quoted.quoteAs { mark := Char.ofNat 39, ascii := l.plus } (Utf8.encode (charOf n)))

/-- The number of 64-bit words. -/
def wordCount : Int := 18446744073709551616

/-- A code point, with the character behind it in the other form if it is printable. A negative
number is taken as a 64-bit word. -/
def codePoint (l : Layout) (n : Int) : Bytes :=
  let ds := inCase true (digits 16 (n % wordCount).toNat)
  let zeros := List.replicate (max 4 (l.precision.getD 0) - ds.length) 48
  let shown :=
    if l.sharp && 0 ≤ n && n.toNat.isValidChar && isPrintable (charOf n) then
      bytes " '" ++ Utf8.encode (charOf n) ++ bytes "'"
    else []
  l.padBlank (bytes "U+" ++ zeros ++ ds ++ shown)

end Layout

end WordStack
