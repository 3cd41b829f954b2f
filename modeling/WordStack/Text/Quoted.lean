import WordStack.Text.Printable
import WordStack.Text.Utf8

/-!
# Quoted text

A byte string between double quotes, on one line and with nothing invisible in it. A quote and a
backslash are escaped by a backslash; the seven usual control characters have letters; other
characters that are not printable are written by their code point (`\x7f`, `\u00ad`,
`\U0010ffff`), and a byte that is part of no character by its value (`\xff`).

`quote` is the usual style. Other styles have other quotes, or write all characters outside of ASCII
by their code points.
-/
namespace WordStack.Quoted

/-- A hexadecimal digit, in lower case. -/
def hexDigit (n : Nat) : UInt8 := if n < 10 then (48 + n).toUInt8 else (87 + n).toUInt8

/-- The last `width` hexadecimal digits of a number. -/
def hex : (width : Nat) → Nat → Bytes
  | 0, _ => []
  | width + 1, n => hex width (n / 16) ++ [hexDigit (n % 16)]

/-- The letter that stands for a control character behind a backslash. -/
def controlLetter? (n : Nat) : Option UInt8 :=
  match n with
  | 7 => some 97
  | 8 => some 98
  | 9 => some 116
  | 10 => some 110
  | 11 => some 118
  | 12 => some 102
  | 13 => some 114
  | _ => none

/-- How characters are quoted. -/
structure Style where
  /-- The quote on both sides. -/
  mark : Char := '"'
  /-- Whether only ASCII characters stand for themselves. -/
  ascii : Bool := false

/-- A character as it stands between quotes. -/
def escape (style : Style) (c : Char) : Bytes :=
  if c = style.mark ∨ c = '\\' then 92 :: Utf8.encode c
  else if isPrintable c ∧ (style.ascii → c.toNat < 0x80) then Utf8.encode c
  else
    let n := c.toNat
    match controlLetter? n with
    | some letter => [92, letter]
    | none =>
      if n < 0x80 then bytes "\\x" ++ hex 2 n
      else if n < 0x10000 then bytes "\\u" ++ hex 4 n
      else bytes "\\U" ++ hex 8 n

/-- A piece of a byte string as it stands between quotes. -/
def escapePiece (style : Style) : Utf8.Piece → Bytes
  | .char c => escape style c
  | .stray b => bytes "\\x" ++ hex 2 b.toNat

/-- What stands between the quotes. -/
def body (style : Style) (b : Bytes) : Bytes := (Utf8.pieces b).flatMap (escapePiece style)

/-- A byte string in the quotes of a style. -/
def quoteAs (style : Style) (b : Bytes) : Bytes :=
  Utf8.encode style.mark ++ body style b ++ Utf8.encode style.mark

/-- A byte string in quotes. -/
def quote (b : Bytes) : Bytes := quoteAs {} b

/-- Whether a byte string can stand between grave accents as it is: it is text on one line with no
grave accent, byte order mark or control character other than a tab. -/
def isPlain (b : Bytes) : Bool :=
  (Utf8.pieces b).all fun
    | .char c => (0x20 ≤ c.toNat || c = '\t') && c.toNat ∉ [0x60, 0x7F, 0xFEFF]
    | .stray _ => false

/-- The grave accent. -/
def grave : Bytes := [96]

end WordStack.Quoted
