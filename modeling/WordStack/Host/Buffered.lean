import WordStack.Host.Basic

/-!
# Buffered writing

A buffer holds up to 4096 bytes in front of its sink. A flush gives all of them to the sink in one
write; a sink that takes less than it is given makes the flush fail, what it did not take stays
held, and the error stays with the buffer: every later write and flush returns it.

A write that fits into the room left is only held. One that does not fit fills the buffer and
flushes it, again and again, until the rest fits. Data written as bytes takes a short cut: while
nothing is held, what does not fit is given to the sink at once. Text would take it only in front
of a sink that takes text itself. The sinks here take bytes and nothing else, so text always goes
through the buffer.
-/
namespace WordStack.Host

/-- How many bytes a buffer holds. -/
def bufferSize : Nat := 4096

/-- Put a new buffer in front of a sink and give its place. -/
def addBuffer (sink : Nat) : Act Host Nat := fun h =>
  .ok h.buffers.size { h with buffers := h.buffers.push { sink } }

/-- Replace a buffer. -/
def setBuffer (i : Nat) (b : Buffer) : Act Host Unit :=
  modify fun h => { h with buffers := h.buffers.setIfInBounds i b }

/-- Give everything held to the sink. -/
def flushBuffer (i : Nat) : Act Host (Option Error) := do
  match (← get).buffers[i]? with
  | none => return none
  | some b =>
    match b.error with
    | some e => return some e
    | none =>
      if b.held.isEmpty then return none
      else
        let w ← writeSink b.sink b.held
        let short := if w.count < b.held.length then some Error.shortWrite else none
        let error := w.error <|> short
        setBuffer i { b with held := if error.isNone then [] else b.held.drop w.count, error }
        return error

/-- Rounds of a write that does not fit. `direct` allows the short cut.

A round that fills the buffer empties it or leaves it with an error, and one that takes the short
cut hands over at least one byte if the sink takes a byte or returns an error. So for such a sink
twice as many rounds as there are bytes are enough. One that keeps taking nothing without an error
could be asked forever; here the write is given up when the rounds are used up, with a short
count. -/
def writeRounds (direct : Bool) (i : Nat) : (rounds : Nat) → (data : Bytes) → (count : Nat) →
    Act Host Wrote
  | 0, _, count => return ⟨count, none⟩
  | rounds + 1, data, count => do
    match (← get).buffers[i]? with
    | none => return ⟨count + data.length, none⟩
    | some b =>
      let room := bufferSize - b.held.length
      if b.error.isSome then return ⟨count, b.error⟩
      else if data.length ≤ room then
        setBuffer i { b with held := b.held ++ data }
        return ⟨count + data.length, none⟩
      else if direct && b.held.isEmpty then
        let w ← writeSink b.sink data
        setBuffer i { b with error := w.error }
        writeRounds direct i rounds (data.drop w.count) (count + w.count)
      else
        setBuffer i { b with held := b.held ++ data.take room }
        let _ ← flushBuffer i
        writeRounds direct i rounds (data.drop room) (count + room)

/-- Write through a buffer. -/
def writeBuffer (direct : Bool) (i : Nat) (data : Bytes) : Act Host Wrote :=
  writeRounds direct i (2 * data.length + 2) data 0

end WordStack.Host
