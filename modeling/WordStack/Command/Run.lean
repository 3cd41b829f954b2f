import WordStack.Command.FileTree
import WordStack.Command.Flags
import WordStack.Dump
import WordStack.Host.LineSplitter
import WordStack.Session.Setting

/-!
# The command

The command reads its flags, compiles the file that its first operand names, and runs it with the
settings that the flags make, followed by extra ones. Errors are reported in the journal, whose
exit code is the result. Wrong flags and a missing operand never reach the journal: they give the
results 2 and 1 at once. With tracing on, a run that fails is followed by a dump in the journal, a
line for each line of the dump.

A run is bounded by fuel; the command then gives no result.
-/
namespace WordStack

/-- What the command is given besides its arguments. -/
structure Command where
  /-- The sink of the standard output. -/
  stdout : Nat
  /-- The sink of the standard error output. -/
  stderr : Nat
  coloured : Bool := false
  /-- Settings applied behind those of the flags. -/
  extra : List SettingTree := []
  /-- How files are opened. -/
  openFile : Bytes → Except Error Source

/-- A run that is prepared. -/
structure Job where
  flags : Flags
  session : Session

namespace Command

/-- What is written when the operand is missing. -/
def usageLine : Bytes := bytes "usage: gowend [flags] <program file>\n"

/-- Write some pieces to a sink, whatever becomes of them. -/
def writeAll (sink : Nat) : List Bytes → Act Host Unit
  | [] => return ()
  | piece :: rest => do
    let _ ← Host.writeSink sink piece
    writeAll sink rest

/-- Compile the file at a path. -/
def compileFile (c : Command) (path : Bytes) : Except Error Program :=
  match c.openFile path with
  | .error e => .error e
  | .ok source =>
    match Program.compile source with
    | .error e => .error (.within path e)
    | .ok p => .ok p

/-- The settings of a run. -/
def settings (c : Command) (flags : Flags) (p : Program) : List SettingTree :=
  [.single (.program p), .single (.output c.stdout),
    if flags.trace then .single (.logger (.journal (bytes "TRACE"))) else .missing,
    if flags.strict then .single .strict else .missing,
    if flags.dump then .single (.listing c.coloured) else .missing] ++ c.extra

/-- Read the arguments and prepare the run; or give a result at once. -/
def prepare (c : Command) (args : List Bytes) : Act Host (Except Nat Job) := do
  match Flags.parse {} args with
  | .error e =>
    writeAll c.stderr ((e.message?.map (· ++ bytes "\n")).toList ++ Flags.usage)
    return .error 2
  | .ok (_, []) =>
    writeAll c.stdout [usageLine]
    return .error 1
  | .ok (flags, path :: _) =>
    match c.compileFile path with
    | .error e =>
      Host.reportIf (some e)
      return .error (← get).journal.exitCode
    | .ok p => fun h =>
      match Session.new (c.settings flags p) h with
      | .ok _ session => .ok (.ok { flags, session }) session.host
      | .error abort session => .error abort session.host

end Command

namespace Job

/-- The context of a run under a time limit. One that is over before the run starts halts it behind
its first instruction; any other one is not reached. -/
def context (j : Job) : Context := fun _ =>
  if j.flags.timeout < 0 then some .deadlineExceeded else none

/-- Report the lines of a dump. -/
def reportDump : List Bytes → Act Host Unit
  | [] => return ()
  | line :: rest => do
    Host.report (bytes "DUMP") (bytes "%s") [.text line]
    reportDump rest

/-- The lines of the dump of a session. -/
def dumpLines (s : Session) : List Bytes :=
  let (whole, splitter) := LineSplitter.write {} (Dump.render s.machine s.program)
  whole ++ splitter.close.1

/-- Report how the run of a session ended. -/
def announce (j : Job) (error : Option Error) : Session.M Unit := do
  if error.isSome && j.flags.trace then
    Session.onHost (reportDump (dumpLines (← get)))
  Session.onHost (Host.reportIf error)

/-- Report how the run of a session ended, close the session, and give the exit code. -/
def conclude (j : Job) (error : Option Error) : Session.M Nat := do
  j.announce error
  let closeError ← Session.close
  Session.onHost (Host.reportIf closeError)
  return (← get).host.journal.exitCode

end Job

namespace Command

/-- Run the command under a context of the job. -/
def runUnder (c : Command) (context : Job → Context) (fuel : Nat) (args : List Bytes) :
    Act Host (Option Nat) := do
  match ← c.prepare args with
  | .error code => return some code
  | .ok job => fun h =>
    match Session.run (context job) fuel { job.session with host := h } with
    | (.unfinished, s) => .ok none s.host
    | (.ended error, s) =>
      match job.conclude error s with
      | .ok code s => .ok (some code) s.host
      | .error abort s => .error abort s.host

/-- Run the command with nothing but the time limit of its flags to end it. -/
def run (c : Command) : (fuel : Nat) → (args : List Bytes) → Act Host (Option Nat) :=
  c.runUnder Job.context

end Command

end WordStack
