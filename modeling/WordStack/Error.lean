import WordStack.Instruction
import WordStack.Value

/-!
# Errors

Every way in which reading, resolving, running or writing can go wrong is a constructor of `Error`,
and its wording is in `Error.message`. Some errors wrap a cause: a halt, a contained crash, and an
error put in context. `Error.cause?` takes one such layer off, and `Error.chain` lists all layers
from the outside in.
-/
namespace WordStack

/-- Something that a computation must not do, and that stops it on the spot. -/
inductive Fault where
  /-- An index outside of a sequence of some length. -/
  | index (i : Int) (length : Nat)
  /-- An upper bound outside of a sequence of some capacity. -/
  | bound (i : Int) (capacity : Nat)
  /-- A sequence of a length that no sequence has. -/
  | impossibleLength
  /-- A machine division by zero. -/
  | divide
  /-- A store into a table that does not exist. -/
  | absentTable
  /-- A use of something that does not exist. -/
  | absentTarget
  /-- A crash with no value at all. -/
  | absentValue
  deriving DecidableEq, Repr

namespace Fault

/-- The greatest length of a sequence of words. -/
def longest : Int := 35184372088832

/-- The fault of making a sequence of words of some length. -/
def ofLength? (length : Int) : Option Fault :=
  if 0 ≤ length ∧ length ≤ longest then none else some .impossibleLength

/-- The fault of taking the entry at a place of a sequence, if there is none. -/
def ofIndex? (i : Int) (length : Nat) : Option Fault :=
  if 0 ≤ i ∧ i < length then none else some (.index i length)

/-- The fault of cutting a sequence off at a place outside of it. -/
def ofBound? (i : Int) (capacity : Nat) : Option Fault :=
  if 0 ≤ i ∧ i ≤ capacity then none else some (.bound i capacity)

/-- The fault of a division by zero. -/
def ofDivisor? (i : Int) : Option Fault := if i = 0 then some .divide else none

/-- The wording of a fault. -/
def message : Fault → Bytes
  | index i length =>
    bytes "runtime error: index out of range [" ++ Decimal.ofInt i ++ bytes "]" ++
      if i < 0 then [] else bytes " with length " ++ Decimal.ofNat length
  | bound i capacity =>
    bytes "runtime error: slice bounds out of range [:" ++ Decimal.ofInt i ++ bytes "]" ++
      if i < 0 then [] else bytes " with capacity " ++ Decimal.ofNat capacity
  | impossibleLength => bytes "runtime error: makeslice: len out of range"
  | divide => bytes "runtime error: integer divide by zero"
  | absentTable => bytes "assignment to entry in nil map"
  | absentTarget => bytes "runtime error: invalid memory address or nil pointer dereference"
  | absentValue => bytes "runtime error: panic called with nil argument"

end Fault

/-- What can go wrong. -/
inductive Error where
  /-- An error from outside, known by its text alone. -/
  | external (text : Bytes)
  /-- The end of the input. -/
  | endOfInput
  /-- A write that took less than it was given. -/
  | shortWrite
  /-- The run was called off. -/
  | canceled
  /-- The time of the run was up. -/
  | deadlineExceeded
  /-- A program divided by zero. -/
  | divisionByZero
  /-- The source is not UTF-8. -/
  | invalidUtf8
  /-- An operation found the stack empty. -/
  | underflow (op : Op)
  /-- A strict machine met an operand that is no integer. -/
  | typeMismatch (op : Op) (operand : Value)
  /-- A jump out of a block that is never closed. -/
  | unresolved (position : Int)
  /-- A closing word with no block to close. -/
  | unmatched (op : Op) (position : Nat)
  /-- A line longer than a scan can hold. -/
  | lineTooLong
  /-- A file operation failed. -/
  | file (action path reason : Bytes)
  | fault (f : Fault)
  /-- A halt for no reason. -/
  | halted
  /-- A halt for a reason. -/
  | haltedBy (reason : Error)
  /-- A contained crash that carried a plain value. -/
  | crashed (name value : Bytes)
  /-- A contained crash that carried an error. -/
  | crashedBy (name : Bytes) (reason : Error)
  /-- A contained computation ended itself. -/
  | exited (name : Bytes)
  /-- An error put in context. -/
  | within (context : Bytes) (reason : Error)
  deriving DecidableEq, Repr

namespace Error

/-- How a crash is told, by the name of what crashed. -/
def crashMessage (name value : Bytes) : Bytes :=
  (if name.isEmpty then [] else name ++ bytes " ") ++ bytes "paniced: " ++ value

/-- The wording of an error. -/
def message : Error → Bytes
  | external text => text
  | endOfInput => bytes "EOF"
  | shortWrite => bytes "short write"
  | canceled => bytes "context canceled"
  | deadlineExceeded => bytes "context deadline exceeded"
  | divisionByZero => bytes "division by zero"
  | invalidUtf8 => bytes "invalid UTF-8 in source"
  | underflow op => bytes "stack underflow in " ++ op.name
  | typeMismatch op operand =>
    bytes "type mismatch in " ++ op.name ++ bytes ": non-integer operand " ++
      Quoted.quote operand.render
  | unresolved position =>
    bytes "unresolved jump @" ++ Decimal.ofInt position ++ bytes ": block never closed"
  | unmatched op position =>
    bytes "unmatched " ++ op.name ++ bytes " @" ++ Decimal.ofNat position ++ bytes ": no open block"
  | lineTooLong => bytes "bufio.Scanner: token too long"
  | file action path reason => action ++ bytes " " ++ path ++ bytes ": " ++ reason
  | fault f => f.message
  | halted => bytes "halted"
  | haltedBy reason => bytes "halted: " ++ reason.message
  | crashed name value => crashMessage name value
  | crashedBy name reason => crashMessage name reason.message
  | exited name =>
    if name.isEmpty then bytes "runtime.Goexit called" else name ++ bytes " called runtime.Goexit"
  | within context reason => context ++ bytes ": " ++ reason.message

/-- The error directly inside another one. -/
def cause? : Error → Option Error
  | haltedBy reason | crashedBy _ reason | within _ reason => some reason
  | _ => none

/-- An error and all errors inside it, outermost first. -/
def chain : Error → List Error
  | haltedBy reason => haltedBy reason :: reason.chain
  | crashedBy name reason => crashedBy name reason :: reason.chain
  | within context reason => within context reason :: reason.chain
  | e => [e]

/-- The innermost error. -/
def root (e : Error) : Error := e.chain.getLast?.getD e

/-- A contained crash. -/
def isCrash : Error → Bool
  | crashed .. | crashedBy .. => true
  | _ => false

/-- What stands between the wording of a crash and the trace of it. -/
def traceMark : Bytes := bytes "\nPanic stack: "

/-- The wording of an error up to the trace, and whether a trace begins there. Only a crash itself
has a trace, but a wording in which the mark occurs is cut there all the same. -/
def untraced (e : Error) : Bytes × Bool :=
  let text := if e.isCrash then e.message ++ traceMark else e.message
  match cut? traceMark text with
  | some (front, _) => (front, true)
  | none => (text, false)

/-- A contained computation that ended itself. -/
def isExit : Error → Bool
  | exited _ => true
  | _ => false

/-- The reason of the first halt in the chain of an error; none if there is no halt in it, and
`some none` if that halt has no reason. -/
def haltReason? : Error → Option (Option Error)
  | halted => some none
  | haltedBy reason => some (some reason)
  | crashedBy _ reason | within _ reason => reason.haltReason?
  | _ => none

/-- An error as a run reports it: a halt gives way to its reason. -/
def withoutHalt (e : Error) : Option Error := e.haltReason?.getD (some e)

/-- If there is an error, there is no halt in it. -/
def NoHalt (error : Option Error) : Prop := ∀ e, error = some e → e.haltReason? = none

@[simp] theorem noHalt_none : NoHalt none := fun _ h => nomatch h

@[simp] theorem noHalt_some {e : Error} : NoHalt (some e) ↔ e.haltReason? = none := by simp [NoHalt]

theorem NoHalt.orElse {a b : Option Error} (ha : NoHalt a) (hb : NoHalt b) : NoHalt (a <|> b) := by
  cases a with
  | none => exact hb
  | some e => exact ha

/-- An error with no halt in it is reported as it is. -/
theorem NoHalt.withoutHalt {error : Option Error} (h : NoHalt error) :
    error.bind Error.withoutHalt = error := by
  cases error with
  | none => rfl
  | some e => rw [Option.bind_some, Error.withoutHalt, h e rfl, Option.getD_none]

end Error

end WordStack
