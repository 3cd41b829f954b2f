import WordStack.Command.Run

/-!
# The program

The command on the real standard streams. Writes to the two standard sinks are passed on as they
happen, a bounded number of instructions at a time, and the clock is read in between.
-/
namespace WordStack.Main

/-- Read a file, or tell why not. -/
def readSource (path : String) : IO (Except Error Source) := do
  let name := bytes path
  try
    let content ← IO.FS.readBinFile path
    return .ok { content := content.data.toList }
  catch e =>
    match e with
    | .noFileOrDirectory .. => return .error (.file (bytes "open") name Lost.missing.message)
    | .inappropriateType (some _) .. =>
      return .error (.file (bytes "open") name Lost.notDirectory.message)
    | .inappropriateType none .. =>
      let failure := Error.file (bytes "read") name (bytes "is a directory")
      return .ok { content := [], failure := some failure }
    | .permissionDenied .. =>
      return .error (.file (bytes "open") name (bytes "permission denied"))
    | .invalidArgument .. =>
      return .error (.file (bytes "open") name Lost.invalid.message)
    | _ => return .error (.file (bytes "open") name (bytes "input/output error"))

/-- Pass the writes to the standard sinks on. -/
def passOn (h : Host) : IO Host := do
  let (events, h) := h.drain
  let stdout ← IO.getStdout
  let stderr ← IO.getStderr
  for event in events do
    match event with
    | .write 0 data => stdout.write (ByteArray.mk data.toArray)
    | .write _ data => stderr.write (ByteArray.mk data.toArray)
    | _ => pure ()
  stdout.flush
  stderr.flush
  return h

/-- How many instructions are executed between two looks at the clock. -/
def stride : Nat := 4096

/-- Go on with a run until it ends. -/
partial def drive (limit : Option Nat) (asked : Nat) (last : Outcome × Session) :
    IO (Option Error × Session) := do
  let (outcome, s) := last
  let s := { s with host := ← passOn s.host }
  match outcome with
  | .ended error => return (error, s)
  | .unfinished =>
    let now ← IO.monoNanosNow
    let context : Context := fun _ =>
      if limit.any (· ≤ now) then some .deadlineExceeded else none
    drive limit (asked + stride) (s.resume context stride asked)

/-- Run the command on the real standard streams. -/
def runMain (args : List String) : IO UInt32 := do
  let started ← IO.monoNanosNow
  let words := args.map bytes
  let read ← match Flags.parse {} words with
    | .ok (_, path :: _) => readSource ((String.fromUTF8? (ByteArray.mk path.toArray)).getD "")
    | _ => pure (.error .endOfInput)
  let command : Command :=
    { stdout := 0, stderr := 1, coloured := ← (← IO.getStdout).isTty, openFile := fun _ => read }
  let host : Host := { sinks := #[{}, {}], journal := { output := some 1 } }
  match command.prepare words host with
  | .error _ h =>
    let _ ← passOn h
    return 2
  | .ok (.error code) h =>
    let _ ← passOn h
    return code.toUInt32
  | .ok (.ok job) h =>
    let limit :=
      if 0 < job.flags.timeout then some (started + job.flags.timeout.toNat) else none
    let first := Session.run job.context stride { job.session with host := h }
    let (error, s) ← drive limit stride first
    match job.conclude error s with
    | .ok code s =>
      let _ ← passOn s.host
      return code.toUInt32
    | .error _ s =>
      let _ ← passOn s.host
      return 2

end WordStack.Main

/-- The program. -/
def main (args : List String) : IO UInt32 := WordStack.Main.runMain args
