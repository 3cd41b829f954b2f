import WordStack.Command.Duration
import WordStack.Text.Quoted

/-!
# Command line flags

Flags come before the operands, with one dash or two. A switch takes a value only behind `=`; the
time limit takes one behind `=` or as the next argument. The first argument that is no flag, or
`--`, ends them. A later flag replaces an earlier one of the same name.
-/
namespace WordStack

/-- The settings that flags make. -/
structure Flags where
  /-- The time limit in nanoseconds; zero is none. -/
  timeout : Int := 0
  trace : Bool := false
  strict : Bool := false
  dump : Bool := false
  deriving DecidableEq, Repr

/-- What is wrong with the flags. -/
inductive FlagError where
  /-- Not wrong, but the usage is asked for. -/
  | help
  | badSyntax (argument : Bytes)
  | undefined (name : Bytes)
  | missingValue (name : Bytes)
  | badSwitch (value name : Bytes)
  | badValue (value name : Bytes)
  deriving DecidableEq, Repr

/-- The message about wrong flags, if there is one. -/
def FlagError.message? : FlagError → Option Bytes
  | help => none
  | badSyntax argument => some (bytes "bad flag syntax: " ++ argument)
  | undefined name => some (bytes "flag provided but not defined: -" ++ name)
  | missingValue name => some (bytes "flag needs an argument: -" ++ name)
  | badSwitch value name =>
    some (bytes "invalid boolean value " ++ Quoted.quote value ++ bytes " for -" ++ name ++
      bytes ": parse error")
  | badValue value name =>
    some (bytes "invalid value " ++ Quoted.quote value ++ bytes " for flag -" ++ name ++
      bytes ": parse error")

namespace Flags

/-- The usage, as the pieces in which it is written. -/
def usage : List Bytes :=
  [bytes "Usage of gowend:\n",
    bytes "  -dump\n    \tprint the resolved program before running it\n",
    bytes "  -strict\n    \thalt on non-integer operands\n",
    bytes "  -timeout duration\n    \tspecify a time limit\n",
    bytes "  -trace\n    \tenable trace logging\n"]

/-- The value of a switch. -/
def switch? (value : Bytes) : Option Bool :=
  if ["1", "t", "T", "true", "TRUE", "True"].any (bytes · = value) then some true
  else if ["0", "f", "F", "false", "FALSE", "False"].any (bytes · = value) then some false
  else none

/-- Set a switch by its name; none if there is no such switch. -/
def setSwitch? (name : Bytes) : Option (Bool → Flags → Flags) :=
  if name = bytes "trace" then some fun b f => { f with trace := b }
  else if name = bytes "strict" then some fun b f => { f with strict := b }
  else if name = bytes "dump" then some fun b f => { f with dump := b }
  else none

/-- The name of a flag and the value behind its `=`, which cannot come first. -/
def splitValue (body : Bytes) : Bytes × Option Bytes :=
  let name := body.take 1 ++ (body.drop 1).takeWhile (· ≠ 61)
  match (body.drop 1).dropWhile (· ≠ 61) with
  | [] => (name, none)
  | _ :: value => (name, some value)

/-- What an argument is to the flags. -/
inductive Argument where
  /-- No flag: the operands start here. -/
  | operand
  /-- The end of the flags. -/
  | stop
  /-- A flag, without its dashes. -/
  | flag (body : Bytes)
  deriving DecidableEq, Repr

/-- What an argument is, by its dashes. -/
def argument : Bytes → Argument
  | 45 :: 45 :: [] => .stop
  | 45 :: 45 :: body => .flag body
  | 45 :: x :: body => .flag (x :: body)
  | _ => .operand

/-- Set the time limit. -/
def setTimeout (f : Flags) (name value : Bytes) : Except FlagError Flags :=
  match Duration.read? value with
  | some n => .ok { f with timeout := n }
  | none => .error (.badValue value name)

/-- Set a flag by its name and the value behind its `=`. The time limit takes the next argument if
it has no value; the result tells whether it did. -/
def setFlag (f : Flags) (name : Bytes) (value next : Option Bytes) :
    Except FlagError (Flags × Bool) :=
  match setSwitch? name with
  | some set =>
    match value with
    | none => .ok (set true f, false)
    | some v =>
      match switch? v with
      | some b => .ok (set b f, false)
      | none => .error (.badSwitch v name)
  | none =>
    if name = bytes "timeout" then
      match value, next with
      | some v, _ => (f.setTimeout name v).map (·, false)
      | none, some v => (f.setTimeout name v).map (·, true)
      | none, none => .error (.missingValue name)
    else if name = bytes "help" ∨ name = bytes "h" then .error .help
    else .error (.undefined name)

/-- Whether the body of a flag cannot be read. -/
def isMalformed (body : Bytes) : Bool :=
  body.isEmpty || body.head? == some 45 || body.head? == some 61

/-- The flags at the front of the arguments, and the operands behind them. -/
def parse (f : Flags) (args : List Bytes) : Except FlagError (Flags × List Bytes) :=
  match args with
  | [] => .ok (f, [])
  | arg :: rest =>
    match argument arg with
    | .operand => .ok (f, arg :: rest)
    | .stop => .ok (f, rest)
    | .flag body =>
      if isMalformed body then .error (.badSyntax arg)
      else
        match f.setFlag (splitValue body).1 (splitValue body).2 rest.head? with
        | .ok (f', false) => parse f' rest
        | .ok (f', true) => parse f' rest.tail
        | .error e => .error e
termination_by args.length

end Flags

end WordStack
