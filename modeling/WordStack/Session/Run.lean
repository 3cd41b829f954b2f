import WordStack.Session.Basic

/-!
# Runs

A run writes the listing if one is wanted, logs its start, executes instructions until the position
is past the last one, logs its end and flushes the outlet. Behind every instruction the context is
asked whether to go on; its error halts the run. While instructions are executed the log lines are
indented by a tab, and however the execution ends the logger is then the one from before.

The number of instructions is bounded by `fuel`, so a run that does not end in time is a result of
its own and not an error.
-/
namespace WordStack

/-- What a run is told each time it asks whether to go on, by how often it has asked before. -/
abbrev Context := Nat → Option Error

namespace Context

/-- Always go on. -/
def never : Context := fun _ => none

/-- Go on the first `n` times. -/
def after (n : Nat) (e : Error) : Context := fun asked => if asked < n then none else some e

end Context

/-- How a bounded run ended. -/
inductive Outcome where
  /-- It ended, with or without an error. -/
  | ended (error : Option Error)
  /-- It used up its fuel. -/
  | unfinished
  deriving DecidableEq, Repr

/-- How a run ended, as it reports it: a halt gives way to its reason. -/
def Outcome.withoutHalt : Outcome → Outcome
  | ended error => ended (error.bind Error.withoutHalt)
  | unfinished => unfinished

@[simp] theorem Outcome.withoutHalt_ended (error : Option Error) :
    (ended error).withoutHalt = ended (error.bind Error.withoutHalt) := rfl

@[simp] theorem Outcome.withoutHalt_eq_unfinished {outcome : Outcome} :
    outcome.withoutHalt = unfinished ↔ outcome = unfinished := by
  cases outcome <;> simp [withoutHalt]

namespace Session

/-- What comes before the first instruction. -/
def start : M Unit := do
  let s ← get
  match s.listing with
  | none => pure ()
  | some coloured => writeText (Listing.render s.program coloured)
  log (bytes "#") (bytes "run " ++ Decimal.ofNat s.program.size ++ bytes " instructions")

/-- Execute instructions until the end; false if the fuel is used up before. -/
def execute (context : Context) : (fuel asked : Nat) → M Bool
  | 0, _ => return !decide ((← get).machine.next < (← get).program.size)
  | fuel + 1, asked => do
    let s ← get
    if s.machine.next < s.program.size then
      step
      haltIf (context asked)
      execute context fuel (asked + 1)
    else
      return true

/-- Indent the log lines of a computation by a tab, if there are any. -/
def indented {α : Type} (act : M α) : M α := fun s =>
  if s.logger.isPresent then
    match act { s with logger := .indented (bytes "\t") s.logger } with
    | .ok a s' => .ok a { s' with logger := s.logger }
    | .error e s' => .error e { s' with logger := s.logger }
  else act s

/-- What comes behind the last instruction. -/
def finish : M (Option Error) := do
  let s ← get
  log (bytes "#") (bytes "done, stack:" ++ Note.showStack s.machine.stack)
  onHost s.outlet.flush

/-- The name under which a session's aborts are contained. -/
def name : Bytes := bytes "VM"

/-- Contain a computation; a halt gives way to its reason. -/
def guarded (act : M (Option Error)) (s : Session) : Option Error × Session :=
  let (error, s) := Act.containError name act s
  (error.bind Error.withoutHalt, s)

/-- Execute instructions, and finish if the end is reached before the fuel is used up. -/
def proceed (context : Context) (fuel asked : Nat) : M Outcome := do
  if ← indented (execute context fuel asked) then
    return .ended (← finish)
  else
    return .unfinished

/-- Contain a part of a run; a halt gives way to its reason, in an error that is returned as well. -/
def contained (act : M Outcome) (s : Session) : Outcome × Session :=
  match Act.contain name act s with
  | (.ok outcome, s) => (outcome.withoutHalt, s)
  | (.error e, s) => (.ended e.withoutHalt, s)

theorem contained_congr {act act' : M Outcome} {s t : Session} (h : act s = act' t) :
    contained act s = contained act' t := by
  rw [contained, contained, Act.contain, Act.contain, h]

theorem contained_ok {act : M Outcome} {outcome : Outcome} {s s' : Session}
    (h : act s = .ok outcome s') :
    contained act s = (outcome.withoutHalt, s') := by
  rw [contained, Act.contain, h]

theorem contained_error {act : M Outcome} {e : Abort} {s s' : Session} (h : act s = .error e s') :
    contained act s = (.ended (e.toError name).withoutHalt, s') := by
  rw [contained, Act.contain, h]

/-- Run the program from the present position. -/
def run (context : Context) (fuel : Nat) : Session → Outcome × Session :=
  contained (do start; proceed context fuel 0)

/-- Go on with a run that used up its fuel, after the context was asked so often. -/
def resume (context : Context) (fuel asked : Nat) : Session → Outcome × Session :=
  contained (proceed context fuel asked)

end Session

end WordStack
