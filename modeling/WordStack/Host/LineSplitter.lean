import WordStack.Host.Basic

/-!
# Splitting output into lines

A line splitter takes output in pieces of any size and gives whole lines, without their line feeds.
The text behind the last line feed is held until a later piece completes it or until the end, which
gives it as a last line if there is any. A write takes the whole piece and does not fail.
-/
namespace WordStack

/-- A line splitter, with the text of the line that is not complete. -/
structure LineSplitter where
  held : Bytes := []
  deriving DecidableEq, Repr

namespace LineSplitter

/-- The lines that a piece of output completes. -/
def write (s : LineSplitter) (piece : Bytes) : List Bytes × LineSplitter :=
  match lines piece with
  | [] => ([], s)
  | first :: rest =>
    let whole := (s.held ++ first) :: rest
    (whole.dropLast, { held := whole.getLast?.getD [] })

/-- The line that is left at the end. -/
def close (s : LineSplitter) : List Bytes × LineSplitter :=
  (if s.held.isEmpty then [] else [s.held], {})

/-- A call of a line splitter. -/
inductive Call where
  | write (piece : Bytes)
  | close
  deriving DecidableEq, Repr

/-- What comes of a call: the answer to the caller, and the lines that are given on. -/
structure Reply where
  wrote : Wrote
  lines : List Bytes
  deriving DecidableEq, Repr

/-- Answer a call. -/
def call (s : LineSplitter) : Call → Reply × LineSplitter
  | .write piece =>
    let (whole, s) := s.write piece
    (⟨⟨piece.length, none⟩, whole⟩, s)
  | .close =>
    let (whole, s) := s.close
    (⟨⟨0, none⟩, whole⟩, s)

/-- Answer calls one after the other. -/
def callAll (s : LineSplitter) : List Call → List Reply × LineSplitter
  | [] => ([], s)
  | c :: calls =>
    let (reply, s) := s.call c
    let (replies, s) := s.callAll calls
    (reply :: replies, s)

end LineSplitter

end WordStack
