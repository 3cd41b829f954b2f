import WordStack.Host.Journal
import WordStack.Host.Outlet
import WordStack.Listing
import WordStack.Machine

/-!
# Sessions

A session is a machine with a program, the settings of a run, an outlet to write to, and a logger
for the trace. What its parts do reaches the host that it holds.

A logger sends lines to a recorder or to the journal; it may be indented, which puts a text in
front of every line, as part of the template that the line is made from. A log line is a mark and a
text. Marks are filled up to the width of the widest mark so far by repeating their first
character.

A session halts by flushing its outlet and logging the reason, and then crashing with a halt. A
crash on the way is ignored, and the error of the flush counts only if there is no other reason.
-/
namespace WordStack

/-- Where log lines go. -/
inductive Logger where
  | absent
  | recorder (place : Nat)
  | journal (level : Bytes)
  /-- Every line has a text in front. -/
  | indented (text : Bytes) (inner : Logger)
  deriving DecidableEq, Repr

namespace Logger

/-- Whether lines are logged at all. -/
def isPresent (l : Logger) : Bool := l ≠ absent

/-- Send a line. -/
def send : Logger → (template : Bytes) → List Template.Arg → Act Host Unit
  | absent, _, _ => Act.fault .absentTarget
  | recorder place, template, args => Host.record place (Template.message template args)
  | journal level, template, args => Host.report level template args
  | indented text inner, template, args => inner.send (text ++ template) args

end Logger

/-- A machine with all that a run needs. -/
structure Session where
  program : Program := {}
  machine : Machine := {}
  /-- Whether an operand that is no integer halts the run. -/
  strict : Bool := false
  /-- Whether a run starts with a listing, and whether that is coloured. -/
  listing : Option Bool := none
  logger : Logger := .absent
  /-- The width of the widest mark so far, in bytes. -/
  markWidth : Nat := 0
  outlet : Outlet := []
  /-- The sinks to close at the end, the latest first. -/
  closers : List Nat := []
  host : Host := {}

namespace Session

/-- A computation on a session. -/
abbrev M := Act Session

/-- Do something on the host. -/
def onHost {α : Type} (act : Act Host α) : M α :=
  Act.zoom Session.host (fun host s => { s with host }) act

/-- A mark filled up to a width by repeating its first character as often as bytes are missing. -/
def padMark (width : Nat) (mark : Bytes) : Bytes :=
  match mark with
  | [] => []
  | x :: tail =>
    let first := match Utf8.first? (x :: tail) with
      | some (c, _) => Utf8.encode c
      | none => Utf8.encode Utf8.replacement
    (List.replicate (width - mark.length) first).flatten ++ mark

theorem padMark_of_first? {mark rest : Bytes} {first : Char}
    (h : Utf8.first? mark = some (first, rest)) (width : Nat) : padMark width mark =
      (List.replicate (width - mark.length) (Utf8.encode first)).flatten ++ mark := by
  cases mark with
  | nil => cases h
  | cons x tail => rw [padMark, h]

/-- Log a text behind a mark. -/
def log (mark text : Bytes) : M Unit := do
  let s ← get
  if s.logger.isPresent then
    set { s with markWidth := max s.markWidth mark.length }
    onHost (s.logger.send (bytes "%v %v") [.text (padMark s.markWidth mark), .text text])

/-- Log a note about an instruction. -/
def note (n : Note) : M Unit := do
  if (← get).logger.isPresent then log n.mark n.render

/-- Flush the outlet before a halt. A crash is ignored. The error of the flush counts only if there
is no other reason. -/
def settle (reason : Option Error) : M (Option Error) := fun s =>
  match s.outlet with
  | [] => .ok reason s
  | outlet =>
    match onHost outlet.flush s with
    | .ok error s' => .ok (reason <|> error) s'
    | .error (.crash _) s' => .ok reason s'
    | .error .exit s' => .error .exit s'

/-- Halt. -/
def halt {α : Type} (reason : Option Error) : M α := do
  match ← settle reason with
  | some e =>
    Act.shield (log (bytes "#") (bytes "halt error: " ++ e.message))
    Act.crash (.haltedBy e)
  | none =>
    Act.shield (log (bytes "#") (bytes "halt"))
    Act.crash .halted

/-- Halt if there is a reason. -/
def haltIf : Option Error → M Unit
  | none => return ()
  | some e => halt (some e)

/-- Write a text; a failed write halts. -/
def writeText (text : Bytes) : M Unit := do
  let w ← onHost ((← get).outlet.writeText text)
  haltIf w.error

/-- Write a text and a line feed. -/
def writeLine (text : Bytes) : M Unit := do
  writeText text
  writeText (bytes "\n")

/-- Set the machine. -/
def setMachine (m : Machine) : M Unit := modify fun s => { s with machine := m }

/-- Carry out the effects of an instruction. -/
def play : Script → M Unit
  | .done m => setMachine m
  | .halt reason m => do setMachine m; halt (some reason)
  | .fault f m => do setMachine m; Act.fault f
  | .note n m rest => do setMachine m; note n; play rest
  | .write text m rest => do setMachine m; writeText text; play rest

/-- Execute the next instruction. -/
def step : M Unit := do
  let s ← get
  play (s.machine.step s.program s.strict)

/-- Carry out an operation at the current position. -/
def call (op : Op) : M Unit := do
  let s ← get
  play (s.machine.perform s.program s.strict op)

end Session

end WordStack
