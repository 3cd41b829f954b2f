import WordStack.Host.Sink

/-!
# The host

The host is all that a session talks to: sinks, the buffers in front of some of them, recorders of
log lines, a journal with an exit code, and the events that happened, newest first. Sinks, buffers
and recorders are known by their place. A place that does not exist behaves like a sink that drops
everything.
-/
namespace WordStack

/-- Something that reached the outside. -/
inductive Event where
  | log (line : Bytes)
  | write (sink : Nat) (data : Bytes)
  | flush (sink : Nat)
  | close (sink : Nat)
  deriving DecidableEq, Repr

/-- A buffer in front of a sink. -/
structure Buffer where
  sink : Nat
  /-- Bytes not yet given to the sink. -/
  held : Bytes := []
  /-- The first error that the sink returned; it stays. -/
  error : Option Error := none

/-- A recorder of log lines. -/
structure Recorder where
  /-- Whether the call with this number, counted from one, crashes, and with what value. -/
  crash : Nat → Option Bytes := fun _ => none
  /-- How many calls there were. -/
  calls : Nat := 0

/-- A journal writes whole lines to a sink and keeps an exit code. -/
structure Journal where
  /-- The sink that lines go to. -/
  output : Option Nat := none
  /-- What is left of lines whose write was aborted. -/
  pending : Bytes := []
  exitCode : Nat := 0

/-- The outside of a session. -/
structure Host where
  sinks : Array Sink := #[]
  buffers : Array Buffer := #[]
  recorders : Array Recorder := #[]
  journal : Journal := {}
  /-- What happened, newest first. -/
  events : List Event := []

/-- What a write came to: how many bytes were taken, and an error. -/
structure Wrote where
  count : Nat
  error : Option Error := none
  deriving DecidableEq, Repr

namespace Host

/-- Add a sink and give its place. -/
def addSink (h : Host) (s : Sink) : Nat × Host := (h.sinks.size, { h with sinks := h.sinks.push s })

/-- Add a recorder and give its place. -/
def addRecorder (h : Host) (r : Recorder) : Nat × Host :=
  (h.recorders.size, { h with recorders := h.recorders.push r })

/-- The events in order, and the host without them. -/
def drain (h : Host) : List Event × Host := (h.events.reverse, { h with events := [] })

/-- Remember an event. -/
def tell (h : Host) (e : Event) : Host := { h with events := e :: h.events }

/-- Remember a call of a sink, in which it accepted some bytes and may have failed. -/
def called (h : Host) (i : Nat) (taken : Nat) (failed : Bool) : Host :=
  { h with sinks := h.sinks.modify i (·.called taken failed) }

/-- Give bytes to a sink. Bytes that it accepted are an event. -/
def writeSink (i : Nat) (data : Bytes) : Act Host Wrote := fun h =>
  match h.sinks[i]? with
  | none => .ok ⟨data.length, none⟩ h
  | some s =>
    if s.kind = .discard then .ok ⟨data.length, none⟩ h
    else
      match s.policy.write s.past data with
      | .crash value => .error (.crash (.text value)) (h.called i 0 true)
      | .exit => .error .exit (h.called i 0 true)
      | .took count error =>
        let taken := data.take count
        let h := h.called i taken.length (error.isSome || taken.length < data.length)
        .ok ⟨taken.length, error.map (·.error)⟩ (if taken.isEmpty then h else h.tell (.write i taken))

/-- Flush a sink. -/
def flushSink (i : Nat) : Act Host (Option Error) := fun h =>
  match h.sinks[i]? with
  | none => .ok none h
  | some s =>
    let h := (h.called i 0 false).tell (.flush i)
    match s.policy.flush s.past with
    | .done error => .ok (error.map (·.error)) h
    | .crash value => .error (.crash (.text value)) h

/-- Whether a sink can be closed. -/
def isClosable (h : Host) (i : Nat) : Bool := h.sinks[i]?.any (·.closable)

/-- Close a sink. -/
def closeSink (i : Nat) : Act Host (Option Error) := fun h =>
  match h.sinks[i]? with
  | none => .ok none h
  | some s => .ok (s.policy.close s.past) ((h.called i 0 false).tell (.close i))

/-- Give a line to a recorder. -/
def record (i : Nat) (line : Bytes) : Act Host Unit := fun h =>
  match h.recorders[i]? with
  | none => .ok () (h.tell (.log line))
  | some r =>
    let r := { r with calls := r.calls + 1 }
    let h := { h with recorders := h.recorders.setIfInBounds i r }
    match r.crash r.calls with
    | some value => .error (.crash (.text value)) h
    | none => .ok () (h.tell (.log line))

end Host

end WordStack
