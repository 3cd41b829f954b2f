import WordStack.Host.Outlet

/-!
# Fans

What is written to may be missing, a writer, or a fan of several such targets. `join` makes one of
several: it leaves out what is missing and takes the place of fans by their members, and a lone
member needs no fan. `joined` joins all that is in a nest, from the inside out.

A fan writes to its members in turn, up to the first that fails or takes less than it was given, and
flushes all of them, past failures. It does so with members that are fans themselves as with writers.
-/
namespace WordStack

/-- What is written to. -/
inductive Fan (α : Type) where
  | absent
  | lone (writer : α)
  | several (members : List (Fan α))

namespace Fan

variable {α σ : Type}

/-- What a target adds to a fan: nothing if it is missing, its members if it is a fan itself. -/
def spliced : Fan α → List (Fan α)
  | absent => []
  | lone a => [lone a]
  | several members => members

/-- One target for several. -/
def join (targets : List (Fan α)) : Fan α :=
  match targets.flatMap spliced with
  | [] => absent
  | [t] => t
  | members => several members

/-- The target for some writers. -/
def ofWriters : List α → Fan α
  | [] => absent
  | [a] => lone a
  | writers => several (writers.map lone)

mutual

/-- A nest with everything in it joined. -/
def joined : Fan α → Fan α
  | absent => absent
  | lone a => lone a
  | several members => join (joinedAll members)

def joinedAll : List (Fan α) → List (Fan α)
  | [] => []
  | t :: rest => t.joined :: joinedAll rest

end

mutual

/-- The writers in a nest from left to right. -/
def writers : Fan α → List α
  | absent => []
  | lone a => [a]
  | several members => writersAll members

def writersAll : List (Fan α) → List α
  | [] => []
  | t :: rest => t.writers ++ writersAll rest

end

/-! ## Writing and flushing -/

section
variable (write₁ : α → Bytes → Act σ Wrote) (flush₁ : α → Act σ (Option Error))

mutual

/-- Write bytes. -/
def write : Fan α → Bytes → Act σ Wrote
  | absent, _ => Act.fault .absentTarget
  | lone a, data => write₁ a data
  | several members, data => writeAll members data

/-- Write to each in turn, up to the first that fails or comes up short. -/
def writeAll : List (Fan α) → Bytes → Act σ Wrote
  | [], data => return ⟨data.length, none⟩
  | t :: rest, data => do
    let w ← write t data
    if w.error.isSome then return w
    else if w.count < data.length then return ⟨w.count, some .shortWrite⟩
    else writeAll rest data

end

mutual

/-- Flush. -/
def flush : Fan α → Act σ (Option Error)
  | absent => Act.fault .absentTarget
  | lone a => flush₁ a
  | several members => flushAll members

/-- Flush each in turn, past failures; the first error counts. -/
def flushAll : List (Fan α) → Act σ (Option Error)
  | [] => return none
  | t :: rest => do
    let first ← flush t
    let later ← flushAll rest
    return first <|> later

end

/-- A call of something that is written to. -/
inductive Call where
  | write (data : Bytes)
  | flush
  deriving DecidableEq, Repr

/-- Carry out a call. A flush takes no bytes. -/
def call (t : Fan α) : Call → Act σ Wrote
  | .write data => t.write write₁ data
  | .flush => do return { count := 0, error := ← t.flush flush₁ }

/-- What calls one after the other come to. One that aborts leaves the state for the next. -/
def callAll (t : Fan α) : List Call → σ → List (Except Abort Wrote) × σ
  | [], s => ([], s)
  | c :: calls, s =>
    let (reply, s) := match t.call write₁ flush₁ c s with
      | .ok w s => (.ok w, s)
      | .error abort s => (.error abort, s)
    let (replies, s) := callAll t calls s
    (reply :: replies, s)

end

end Fan

end WordStack
