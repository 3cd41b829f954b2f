import WordStack.Host.Buffered

/-!
# Outlets

An outlet is where a session writes: the list of its writers. With no writer there is no outlet at
all, and using it is a fault. A lone writer is used as it is. Several writers fan out: a write goes
to each in turn up to the first that fails or takes less than it was given, which then counts as a
short write; a flush goes to all of them, past failures, and gives the first error.

Joining outlets appends their lists, so that a missing outlet adds nothing and grouping does not
matter.
-/
namespace WordStack

section Fan

variable {m : Type → Type} {α : Type} [Monad m]

/-- Write to each in turn, up to the first that fails or comes up short. -/
def fanWrite (write : α → Bytes → m Wrote) : List α → Bytes → m Wrote
  | [], data => return ⟨data.length, none⟩
  | a :: rest, data => do
    let w ← write a data
    if w.error.isSome then return w
    else if w.count < data.length then return ⟨w.count, some .shortWrite⟩
    else fanWrite write rest data

/-- Do something with each in turn, past failures; the first error counts. -/
def attemptAll (attempt : α → m (Option Error)) : List α → m (Option Error)
  | [] => return none
  | a :: rest => do
    let first ← attempt a
    let later ← attemptAll attempt rest
    return first <|> later

end Fan

/-- One writer of an outlet. -/
inductive Writer where
  /-- Drops everything. -/
  | discard
  /-- A sink with nothing to flush. -/
  | direct (sink : Nat)
  /-- A sink that is flushed itself. -/
  | flushing (sink : Nat)
  /-- A buffer in front of a sink. -/
  | buffered (buffer : Nat)
  deriving DecidableEq, Repr

namespace Writer

/-- A new writer for a sink, by what the sink is. -/
def ofSink (i : Nat) : Act Host Writer := do
  match (← get).sinks[i]? with
  | none => return .discard
  | some s =>
    match s.kind with
    | .discard => return .discard
    | .memory => return .direct i
    | .flushing => return .flushing i
    | .raw => return .buffered (← Host.addBuffer i)

/-- Write bytes. -/
def write : Writer → Bytes → Act Host Wrote
  | discard, data => return ⟨data.length, none⟩
  | direct i, data | flushing i, data => Host.writeSink i data
  | buffered i, data => Host.writeBuffer true i data

/-- Write text. In front of a buffer it never takes the short cut, since no sink here takes text as
such; everywhere else it is written as bytes. -/
def writeText : Writer → Bytes → Act Host Wrote
  | buffered i, text => Host.writeBuffer false i text
  | w, text => w.write text

/-- Flush. -/
def flush : Writer → Act Host (Option Error)
  | discard | direct _ => return none
  | flushing i => Host.flushSink i
  | buffered i => Host.flushBuffer i

end Writer

/-- The writers of an outlet, in order. -/
abbrev Outlet := List Writer

namespace Outlet

/-- One outlet that writes to all of several outlets. -/
def join (outlets : List Outlet) : Outlet := outlets.flatten

theorem join_pair (a b : Outlet) : join [a, b] = a ++ b := by simp [join]

/-- Grouping does not matter. -/
theorem join_join (groups : List (List Outlet)) : join (groups.map join) = join groups.flatten := by
  exact List.flatten_flatten.symm

/-- Write bytes. -/
def write : Outlet → Bytes → Act Host Wrote
  | [], _ => Act.fault .absentTarget
  | [w], data => w.write data
  | ws, data => fanWrite Writer.write ws data

/-- Write text. -/
def writeText : Outlet → Bytes → Act Host Wrote
  | [w], text => w.writeText text
  | ws, text => write ws text

/-- Flush. -/
def flush : Outlet → Act Host (Option Error)
  | [] => Act.fault .absentTarget
  | [w] => w.flush
  | ws => attemptAll Writer.flush ws

end Outlet

end WordStack
