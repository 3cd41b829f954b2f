import WordStack.Error
import WordStack.Text.Utf8

/-!
# Reading character by character

A stream is a byte string with an error behind it, which is the end of the input unless reading
fails. A reader takes characters off a stream. A byte that starts no well-formed character reads as
the replacement character with size one; the error behind the bytes is seen at every read once they
are used up.

A stream that can be read by characters is its own reader. Any other one is wrapped, and the reader
takes over the name of the stream if it has one.
-/
namespace WordStack

/-- Something to read from. -/
structure Stream where
  content : Bytes
  /-- What comes behind the content. -/
  ending : Error := .endOfInput
  /-- Whether it can be read by characters as it is. -/
  byCharacter : Bool := false
  /-- Its name; empty if it has none. -/
  name : Bytes := []

/-- A character reader on a stream. -/
structure Reader where
  rest : Bytes
  ending : Error
  /-- Whether the stream is its own reader. -/
  same : Bool
  name : Bytes

namespace Reader

/-- The reader of a stream. -/
def ofStream (s : Stream) : Reader :=
  { rest := s.content, ending := s.ending, same := s.byCharacter, name := s.name }

/-- Whether the reader can tell its name. -/
def isNamed (r : Reader) : Bool := !r.name.isEmpty

/-- The next character and its size in bytes. -/
def next (r : Reader) : Except Error (Char × Nat) × Reader :=
  match r.rest with
  | [] => (.error r.ending, r)
  | x :: tail =>
    match Utf8.first? (x :: tail) with
    | none => (.ok (Utf8.replacement, 1), { r with rest := tail })
    | some (c, rest) => (.ok (c, c.utf8Size), { r with rest })

/-- All bytes that are left, and the error behind them unless that is the end of the input. -/
def readAll (r : Reader) : Bytes × Option Error × Reader :=
  (r.rest, if r.ending = .endOfInput then none else some r.ending, { r with rest := [] })

end Reader

end WordStack
