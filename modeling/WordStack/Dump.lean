import WordStack.Machine

/-!
# Dumps

A dump shows the state of a machine and its program in full: position, operands in three forms,
mismatches, and the program with one line for each instruction. A line of the program has a star if
it is next, the position padded to the width of the program's size, the instruction, and its jump
target if it has one.

`literal` stands in for the pretty printer that a dump uses for its second form of the operands, as
far as values need it. The results about dumps are about `code`, the lines of the program.
-/
namespace WordStack.Dump

/-- One line of the program. -/
def codeLine (p : Program) (next : Int) (position : Nat) (i : Instruction) : Bytes :=
  let width := (Decimal.ofNat p.size).length
  let number := Decimal.ofNat position
  (if next = position then bytes "*" else bytes " ") ++ bytes " @" ++
    List.replicate (width - number.length) 32 ++ number ++ bytes " " ++ i.render ++
    (match p.target? position with
      | some t => bytes " -> @" ++ Decimal.ofInt t
      | none => []) ++
    bytes "\n"

/-- The lines of the program. -/
def code (p : Program) (next : Int) : Bytes :=
  bytes "# Program\n" ++ (p.code.toList.mapIdx (codeLine p next)).flatten

/-- The operands as a literal, one to a line. A stack on which nothing was ever put is told apart
from an emptied one. -/
def literal (m : Machine) : Bytes :=
  if m.stack.isEmpty && !m.touched then bytes "[]main.Value(nil)"
  else
    bytes "[]main.Value\x7b\n" ++
      (m.stack.reverse.map fun v => bytes "    " ++ v.literal ++ bytes ",\n").flatten ++
      bytes "\x7d"

/-- A dump. -/
def render (m : Machine) (p : Program) : Bytes :=
  bytes "# VM Dump\n" ++
    bytes "  ip: " ++ Decimal.ofInt m.next ++ bytes "\n" ++
    bytes "  stack: " ++ Note.showStack m.stack ++ bytes "\n" ++
    bytes "  values: " ++ literal m ++ bytes "\n" ++
    bytes "  kinds: " ++ bracketed (m.stack.reverse.map Value.kind) ++ bytes "\n" ++
    bytes "  mismatches: " ++ Decimal.ofNat m.mismatches ++ bytes "\n" ++
    code p m.next

end WordStack.Dump
