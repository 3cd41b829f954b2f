import WordStack.Error
import WordStack.Text.Space
import WordStack.Text.Utf8

/-!
# Source text

A source is a byte string that ends normally or in a read error. It is read as words separated by
white space, and each word is one instruction: a 32-bit numeral pushes its value, a reserved word
is its operation, and any other word is kept as it is.

A word is complete when white space follows it, or when the source ends normally behind it. A read
error or a byte that is not UTF-8 stops the reading: the words completed before it are kept and a
word it runs into is dropped. Bytes that are not UTF-8 come before a read error, since that is met
only behind all bytes.
-/
namespace WordStack

/-- The instruction of a word. -/
def Instruction.classify (word : Bytes) : Instruction :=
  match Decimal.readInt32? word with
  | some n => .push n
  | none =>
    match Op.ofKeyword? word with
    | some op => { op }
    | none => .ofWord word

/-- A text to read, and the error that comes behind it instead of a normal end. -/
structure Source where
  content : Bytes
  failure : Option Error := none

namespace Source

/-- The runs of characters between white space, empty runs included. The last run is what follows
the last white space. -/
def runs (cs : List Char) : List (List Char) := cs.splitOnP isSpace

/-- The words among some runs, as byte strings. -/
def words (runs : List (List Char)) : List Bytes :=
  (runs.filter (!·.isEmpty)).map Utf8.encodeAll

/-- The instructions of a source, and the error that stopped the reading. -/
def lex (s : Source) : List Instruction × Option Error :=
  let (cs, left) := Utf8.decode s.content
  let stop := if left.isEmpty then s.failure else some .invalidUtf8
  let complete := if stop.isNone then runs cs else (runs cs).dropLast
  ((words complete).map .classify, stop)

end Source

end WordStack
