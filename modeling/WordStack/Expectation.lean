import WordStack.Host.Basic
import WordStack.Text.Space
import WordStack.Text.Utf8

/-!
# Generated expectations

A source of test builders has methods like

    func (vmt vmTestCase) expectOutput(lines ...string) vmTestCase {

and from each of them a function is generated that forwards its parameters, so that expectations
can be listed as values. `scan` finds the methods line by line, `forward` turns a parameter list
into the arguments that forward it, and `generated` is the text that is written, in the pieces in
which it is written.
-/
namespace WordStack

/-- A builder method. -/
structure Expectation where
  /-- The name behind `expect`. -/
  name : Bytes
  /-- The parameters as they are declared. -/
  params : Bytes
  /-- The arguments that forward them. -/
  args : Bytes
  deriving DecidableEq, Repr

namespace Expectation

/-- A letter, digit or underscore of ASCII. -/
def isWordByte (b : UInt8) : Bool :=
  (48 ≤ b && b ≤ 57) || (65 ≤ b && b ≤ 90) || b == 95 || (97 ≤ b && b ≤ 122)

/-- A white space character. -/
def isBlank : Utf8.Piece → Bool
  | .char c => isSpace c
  | .stray _ => false

/-- The parts of a text between white space. -/
def fields (b : Bytes) : List Bytes :=
  (((Utf8.pieces b).splitOnP isBlank).filter (!·.isEmpty)).map (·.flatMap Utf8.Piece.toBytes)

/-- The argument that forwards a parameter: its name, with dots if its type starts with them. -/
def forwardOne (param : Bytes) : Option Bytes :=
  match fields param with
  | [] => none
  | [name] => some name
  | name :: type :: _ =>
    some (if (bytes "...").isPrefixOf type then name ++ bytes "..." else name)

/-- The arguments that forward a parameter list. -/
def forward (params : Bytes) : Bytes :=
  joinWith (bytes ", ") ((params.splitOnP (· == 44)).filterMap forwardOne)

/-- What stands before the first place where a text holds `pattern`. -/
def before? (pattern : Bytes) : Bytes → Option Bytes
  | [] => if pattern.isEmpty then some [] else none
  | b :: rest =>
    if pattern.isPrefixOf (b :: rest) then some [] else (before? pattern rest).map (b :: ·)

/-- The method that a line declares. -/
def ofLine? (line : Bytes) : Option Expectation := do
  let rest ← behind? (bytes "func (vmt vmTestCase) expect") line
  let name := rest.takeWhile isWordByte
  if name.isEmpty then none
  else
    let inner ← behind? (bytes "(") (rest.dropWhile isWordByte)
    let params ← before? (bytes ") vmTestCase") inner
    return { name, params, args := forward params }

/-- The length from which on a line is too long to be read. -/
def lineLimit : Nat := 65536

/-- A line without the carriage return at its end. -/
def chomp (line : Bytes) : Bytes := if line.getLast? == some 13 then line.dropLast else line

/-- The lines of a text. What follows the last line feed is a line only if it is not empty. -/
def sourceLines (src : Bytes) : List Bytes :=
  let all := lines src
  if all.getLast? == some [] then all.dropLast else all

/-- The methods of a source in order. A line that is too long stops the scan. -/
def scan (src : Bytes) : List Expectation × Option Error :=
  let all := sourceLines src
  let read := all.takeWhile (·.length < lineLimit)
  (read.filterMap fun line => ofLine? (chomp line),
    if read.length < all.length then some .lineTooLong else none)

/-- The error of a scan that is called off from the start: it stops at the first method. -/
def scanCanceled (src : Bytes) : Option Error :=
  let (found, error) := scan src
  if found.isEmpty then error else some .canceled

/-- The head of the generated text. The command that made it is given if it has two arguments. -/
def head (source : Bytes) (args : List Bytes) : List Bytes :=
  [bytes "package main\n\n// @generated from ", source, bytes "\n"] ++
    if args.length < 2 then []
    else
      [bytes "\n//go:generate go run scripts/gen_vm_expects.go --"] ++
        args.flatMap (fun a => [bytes " ", a]) ++ [bytes "\n"]

/-- The function generated from a method. -/
def render (e : Expectation) : List Bytes :=
  [bytes "\nfunc expectVM", e.name, bytes "(", e.params,
    bytes (") func(vmTestCase) vmTestCase \x7b\n\treturn func(vmt vmTestCase) vmTestCase \x7b\n" ++
      "\t\treturn vmt.expect"),
    e.name, bytes "(", e.args, bytes ")\n\t\x7d\n\x7d\n"]

/-- The generated text, in the pieces in which it is written. -/
def generated (source : Bytes) (args : List Bytes) (es : List Expectation) : List Bytes :=
  head source args ++ es.flatMap render

/-- Write pieces to a sink up to the first error. -/
def writePieces (sink : Nat) : List Bytes → Act Host (Option Error)
  | [] => return none
  | piece :: rest => do
    let w ← Host.writeSink sink piece
    if w.error.isSome then return w.error else writePieces sink rest

end Expectation

end WordStack
