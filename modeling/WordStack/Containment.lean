import WordStack.Error

/-!
# Aborts and their containment

A computation with a state may abort instead of returning: it crashes with a value, or it ends
itself. What it did to the state stays done. `contain` turns an abort into an ordinary error that
bears the name of what was contained. `shield` ignores a crash, but not the other kind of abort:
a computation that ends itself ends everything up to the containment.
-/
namespace WordStack

/-- The value that a crash carries. -/
inductive CrashValue where
  | text (t : Bytes)
  | error (e : Error)
  deriving DecidableEq, Repr

/-- Why a computation did not return. -/
inductive Abort where
  | crash (value : CrashValue)
  | exit
  deriving DecidableEq, Repr

/-- A computation on a state that may abort. -/
abbrev Act (σ α : Type) := EStateM Abort σ α

/-- An abort as the error of the contained computation called `name`. -/
def Abort.toError (name : Bytes) : Abort → Error
  | crash (.text t) => .crashed name t
  | crash (.error e) => .crashedBy name e
  | exit => .exited name

namespace Act

variable {σ α : Type}

/-- Crash with an error. -/
def crash (e : Error) : Act σ α := throw (.crash (.error e))

/-- Crash with a text. -/
def crashWith (t : Bytes) : Act σ α := throw (.crash (.text t))

/-- Stop at a fault. -/
def fault (f : Fault) : Act σ α := crash (.fault f)

/-- End the computation. -/
def exit : Act σ α := throw .exit

/-- Ignore a crash, keeping what was done before it. -/
def shield (act : Act σ Unit) : Act σ Unit := fun s =>
  match act s with
  | .error (.crash _) s' => .ok () s'
  | result => result

/-- Run a computation on a part of the state. -/
def zoom {τ : Type} (get : σ → τ) (set : τ → σ → σ) (act : Act τ α) : Act σ α := fun s =>
  match act (get s) with
  | .ok a t => .ok a (set t s)
  | .error e t => .error e (set t s)

/-- Run a computation and turn an abort into an error. -/
def contain (name : Bytes) (act : Act σ α) (s : σ) : Except Error α × σ :=
  match act s with
  | .ok a s' => (.ok a, s')
  | .error abort s' => (.error (abort.toError name), s')

/-- Contain a computation that may also return an error of its own. -/
def containError (name : Bytes) (act : Act σ (Option Error)) (s : σ) : Option Error × σ :=
  match contain name act s with
  | (.ok e, s') => (e, s')
  | (.error e, s') => (some e, s')

end Act

end WordStack
