import WordStack.Containment

/-!
# Sinks

A sink is where bytes go in the end. What it is decides how output reaches it: in-memory sinks need
no buffer, flushing sinks are used as they are, and raw ones get a buffer in front. How it behaves
is its policy: every reply may depend on how often the sink was called, how much it accepted before
and whether it has failed. A write may accept less than it is given, fail, crash or end the
computation. It may fail with any error but a halt: halting is up to a session, and nothing outside
of it can make a halt or get hold of one.
-/
namespace WordStack

/-- What a sink is. -/
inductive SinkKind where
  /-- Drops everything. -/
  | discard
  /-- Keeps everything in memory. -/
  | memory
  /-- Only takes bytes. -/
  | raw
  /-- Can be flushed. -/
  | flushing
  deriving DecidableEq, Repr

/-- An error that a sink returns: there is no halt in it. -/
structure SinkError where
  error : Error
  noHalt : error.haltReason? = none
  deriving DecidableEq, Repr

/-- An error of a sink that is known by its text alone. -/
def SinkError.external (text : Bytes) : SinkError := ⟨.external text, rfl⟩

theorem SinkError.noHalt_map (error : Option SinkError) : Error.NoHalt (error.map (·.error)) := by
  cases error with
  | none => exact Error.noHalt_none
  | some e => exact Error.noHalt_some.mpr e.noHalt

/-- The reply to a write. -/
inductive WriteReply where
  /-- So many bytes were accepted, with or without an error. -/
  | took (count : Nat) (error : Option SinkError)
  | crash (value : Bytes)
  | exit

/-- The reply to a flush. -/
inductive FlushReply where
  | done (error : Option SinkError)
  | crash (value : Bytes)

/-- What a sink has seen so far. -/
structure SinkPast where
  /-- How often it was called. -/
  calls : Nat := 0
  /-- How many bytes it has accepted. -/
  accepted : Nat := 0
  /-- Whether one of its writes was not accepted in full and without an error. -/
  failed : Bool := false
  deriving DecidableEq, Repr

/-- How a sink behaves. -/
structure SinkPolicy where
  write : SinkPast → Bytes → WriteReply := fun _ data => .took data.length none
  flush : SinkPast → FlushReply := fun _ => .done none
  close : SinkPast → Option Error := fun _ => none

/-- Where bytes go. -/
structure Sink where
  name : Bytes := []
  kind : SinkKind := .raw
  closable : Bool := false
  policy : SinkPolicy := {}
  past : SinkPast := {}

/-- A sink after one more call, in which it accepted some bytes and may have failed. -/
def Sink.called (s : Sink) (taken : Nat) (failed : Bool) : Sink :=
  { s with
    past :=
      { calls := s.past.calls + 1
        accepted := s.past.accepted + taken
        failed := s.past.failed || failed } }

/-- Limits of a sink, each optional, in the order in which they apply to a write. -/
structure SinkLimits where
  /-- Every write crashes with this value. -/
  crash : Option Bytes := none
  /-- A write that would go past this many bytes ends the computation. -/
  exitPast : Option Int := none
  /-- A write that would go past this many bytes fails with this text, after filling up to it. -/
  failPast : Option (Int × Bytes) := none
  /-- A write accepts no more than this many bytes, without an error. -/
  short : Option Nat := none

/-- The reply to a write under limits. -/
def SinkLimits.reply (l : SinkLimits) (past : SinkPast) (data : Bytes) : WriteReply :=
  let reach : Int := past.accepted + data.length
  match l.crash with
  | some value => .crash value
  | none =>
    if l.exitPast.any (· < reach) then .exit
    else
      match l.failPast with
      | some (limit, text) =>
        if limit < reach then .took (limit - past.accepted).toNat (some (.external text))
        else shortened
      | none => shortened
where
  /-- The reply when only the limit on one write is left. -/
  shortened : WriteReply :=
    .took (match l.short with | some n => min n data.length | none => data.length) none

end WordStack
