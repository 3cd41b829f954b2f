import WordStack.Text.Decimal
import WordStack.Text.Quoted

/-!
# Operations and instructions

An instruction is an operation with the payload that operation may need: the literal of a `push`
and the text of a `word`. Seventeen operations are known; an instruction may also carry a code past
those, which has no meaning and makes the machine fail.

* `ofCode?_code`, `ofName?_name`, `ofKeyword?_keyword?`: codes, names and reserved words can be read
  back.
-/
namespace WordStack

/-- The operations, in the order of their codes. -/
inductive Op where
  /-- Push a literal. -/
  | push
  | add
  | sub
  | mul
  | div
  | mod
  | eq
  /-- Written `>`: is the second popped greater? -/
  | lt
  /-- Written `<`: is the second popped lesser? -/
  | mt
  /-- Written `if`: skip to the matching `end` unless positive. -/
  | ifTest
  /-- Written `while`: where a loop starts over. -/
  | whileMark
  /-- Written `do`: leave the loop unless positive. -/
  | doTest
  /-- Written `end`: where a failed `if` lands. -/
  | endMark
  /-- Written `wend`: back to the matching `while`. -/
  | wend
  | dup
  | print
  /-- A word with no meaning yet. -/
  | word
  /-- A code that is `past` beyond the known ones. -/
  | unknown (past : Fin 239)
  deriving DecidableEq, Repr

namespace Op

/-- How many operations are known. -/
def knownCount : Nat := 17

/-- The known operations, each at the place of its code. -/
def known : List Op :=
  [push, add, sub, mul, div, mod, eq, lt, mt, ifTest, whileMark, doTest, endMark, wend, dup, print,
    word]

/-- The numeric code of an operation. -/
def code : Op → Nat
  | push => 0
  | add => 1
  | sub => 2
  | mul => 3
  | div => 4
  | mod => 5
  | eq => 6
  | lt => 7
  | mt => 8
  | ifTest => 9
  | whileMark => 10
  | doTest => 11
  | endMark => 12
  | wend => 13
  | dup => 14
  | print => 15
  | word => 16
  | unknown past => knownCount + past.val

/-- The operation with a code below 256. -/
def ofCode? (n : Nat) : Option Op :=
  if n < knownCount then known[n]?
  else if h : n - knownCount < 239 then some (unknown ⟨n - knownCount, h⟩)
  else none

theorem ofCode?_code (op : Op) : ofCode? op.code = some op := by
  cases op with
  | unknown past =>
    have h : ¬ knownCount + past.val < knownCount := by omega
    simp [ofCode?, code, h]
  | _ => rfl

/-- The name of an operation in listings and messages. -/
def name : Op → Bytes
  | push => bytes "push"
  | add => bytes "add"
  | sub => bytes "sub"
  | mul => bytes "mul"
  | div => bytes "div"
  | mod => bytes "mod"
  | eq => bytes "eq"
  | lt => bytes "lt"
  | mt => bytes "mt"
  | ifTest => bytes "if"
  | whileMark => bytes "while"
  | doTest => bytes "do"
  | endMark => bytes "end"
  | wend => bytes "wend"
  | dup => bytes "dup"
  | print => bytes "print"
  | word => bytes "word"
  | unknown past => bytes "Op(" ++ Decimal.ofNat (knownCount + past.val) ++ bytes ")"

/-- The known operation with a name. -/
def ofName? (n : Bytes) : Option Op := known.find? (·.name = n)

/-- The reserved word that stands for an operation in a source text. -/
def keyword? : Op → Option Bytes
  | add => some (bytes "+")
  | sub => some (bytes "-")
  | mul => some (bytes "*")
  | div => some (bytes "/")
  | mod => some (bytes "%")
  | eq => some (bytes "=")
  | lt => some (bytes ">")
  | mt => some (bytes "<")
  | ifTest => some (bytes "if")
  | whileMark => some (bytes "while")
  | doTest => some (bytes "do")
  | endMark => some (bytes "end")
  | wend => some (bytes "wend")
  | dup => some (bytes "dup")
  | print => some (bytes "print")
  | push | word | unknown _ => none

/-- The operation that a reserved word stands for. -/
def ofKeyword? (w : Bytes) : Option Op := known.find? (·.keyword? = some w)

theorem ofName?_name (op : Op) (h : op ∈ known) : ofName? op.name = some op := by
  revert op
  decide

theorem ofKeyword?_keyword? {op : Op} {w : Bytes} (h : op.keyword? = some w) :
    ofKeyword? w = some op := by
  cases op <;> simp only [keyword?, Option.some.injEq, reduceCtorEq] at h <;> subst h <;> decide

/-- An operation that opens a block. -/
def isOpener : Op → Bool
  | ifTest | whileMark | doTest => true
  | _ => false

end Op

/-- One element of a program. -/
structure Instruction where
  op : Op
  /-- The literal of a `push`. -/
  int : Int32 := 0
  /-- The text of a `word`. -/
  word : Bytes := []
  deriving DecidableEq, Repr

namespace Instruction

/-- The instruction that pushes a literal. -/
def push (n : Int32) : Instruction := { op := .push, int := n }

/-- The instruction of a word with no meaning. -/
def ofWord (w : Bytes) : Instruction := { op := .word, word := w }

/-- The payload that belongs to the operation, as text: a number or quoted text. -/
def argument (i : Instruction) : Bytes :=
  match i.op with
  | .push => Decimal.ofInt i.int.toInt
  | .word => Quoted.quote i.word
  | _ => []

/-- An instruction in one line: the operation, with its payload in parentheses. -/
def render (i : Instruction) : Bytes :=
  match i.op with
  | .push | .word => i.op.name ++ bytes "(" ++ i.argument ++ bytes ")"
  | _ => i.op.name

end Instruction

end WordStack
