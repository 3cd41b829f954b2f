import WordStack.Session.Run

/-!
# Executions

An execution is a machine at work by itself: what it has written is kept in order, its notes are
dropped, and nothing that it does can fail from outside. `Execution.advance` carries out one
instruction and then asks the context; `Execution.after` does so again and again.

* `after_add`: the instructions can be counted in parts.
* `after_of_isOver`: what is over stays as it is, so more instructions change nothing.
* `prefix_after`: what was written before stays a beginning of the text.
* `after_eq_of_isOver`: an execution that is over after `n` instructions is the same after any
  greater number.
-/
namespace WordStack

/-- What ends an execution before the end of the program. -/
inductive Stop where
  | halt (reason : Error)
  | fault (f : Fault)
  deriving DecidableEq, Repr

/-- A machine, what it has written, and what stopped it. -/
structure Execution where
  machine : Machine
  written : Bytes := []
  stop : Option Stop := none
  deriving DecidableEq, Repr

/-- What the effects of an instruction come to, if `out` was written before. -/
def Script.play (out : Bytes) : Script → Execution
  | .done m => { machine := m, written := out }
  | .halt reason m => { machine := m, written := out, stop := some (.halt reason) }
  | .fault f m => { machine := m, written := out, stop := some (.fault f) }
  | .note _ _ rest => rest.play out
  | .write text _ rest => rest.play (out ++ text)

namespace Execution

/-- Whether there is nothing left to do: it was stopped, or the position is past the last
instruction. -/
def isOver (p : Program) (x : Execution) : Bool :=
  x.stop.isSome || !decide (x.machine.next < p.size)

/-- Carry out the next instruction, if there is one, and stop if the context says so. -/
def advance (p : Program) (strict : Bool) (answer : Option Error) (x : Execution) : Execution :=
  if x.isOver p then x
  else
    let y := (x.machine.step p strict).play x.written
    { y with stop := y.stop <|> answer.map .halt }

/-- Carry out `n` instructions, if there are so many, after the context was asked so often. -/
def after (p : Program) (strict : Bool) (context : Context) :
    (asked n : Nat) → Execution → Execution
  | _, 0, x => x
  | asked, n + 1, x => after p strict context (asked + 1) n (x.advance p strict (context asked))

section
variable {p : Program} {strict : Bool} {context : Context} {asked : Nat} {x : Execution}

@[simp] theorem after_zero : after p strict context asked 0 x = x := rfl

theorem after_succ (n : Nat) : after p strict context asked (n + 1) x =
    after p strict context (asked + 1) n (x.advance p strict (context asked)) := rfl

theorem isOver_eq_false : x.isOver p = false ↔ x.stop = none ∧ x.machine.next < p.size := by
  simp [isOver]

theorem advance_of_isOver (h : x.isOver p = true) (answer : Option Error) :
    x.advance p strict answer = x := by simp [advance, h]

theorem after_of_isOver (h : x.isOver p = true) (n : Nat) :
    after p strict context asked n x = x := by
  induction n generalizing asked with
  | zero => rfl
  | succ n ih => rw [after_succ, advance_of_isOver h, ih]

theorem after_add (m n : Nat) : after p strict context asked (m + n) x =
    after p strict context (asked + m) n (after p strict context asked m x) := by
  induction m generalizing asked x with
  | zero => simp
  | succ m ih =>
    rw [show m + 1 + n = m + n + 1 by omega, after_succ, ih, after_succ,
      show asked + 1 + m = asked + (m + 1) by omega]

theorem after_eq_of_isOver {m n : Nat} (h : (after p strict context asked m x).isOver p = true)
    (hmn : m ≤ n) : after p strict context asked n x = after p strict context asked m x := by
  obtain ⟨d, rfl⟩ := Nat.le.dest hmn
  rw [after_add, after_of_isOver h]

/-- The last of several instructions. -/
theorem after_succ' (n : Nat) : after p strict context asked (n + 1) x =
    (after p strict context asked n x).advance p strict (context (asked + n)) := by
  rw [after_add]; rfl

/-- What one instruction keeps, a run of instructions keeps. -/
theorem after_invariant {P : Execution → Prop} (h : P x)
    (hstep : ∀ (y : Execution) (k : Nat), P y → P (y.advance p strict (context k))) (n : Nat) :
    P (after p strict context asked n x) := by
  induction n with
  | zero => exact h
  | succ n ih => rw [after_succ']; exact hstep _ _ ih

end

/-! ## Text grows at its end -/

theorem prefix_play (script : Script) (out : Bytes) : out <+: (script.play out).written := by
  induction script generalizing out with
  | note n m rest ih => exact ih out
  | write text m rest ih => exact (List.prefix_append out text).trans (ih (out ++ text))
  | _ => exact List.prefix_rfl

section
variable {p : Program} {strict : Bool}

theorem prefix_advance (answer : Option Error) (x : Execution) :
    x.written <+: (x.advance p strict answer).written := by
  unfold advance
  split
  · exact List.prefix_rfl
  · exact prefix_play _ _

theorem prefix_after (c : Context) (asked n : Nat) (x : Execution) :
    x.written <+: (x.after p strict c asked n).written :=
  after_invariant (P := fun y => x.written <+: y.written) List.prefix_rfl
    (fun y k h => h.trans (prefix_advance (c k) y)) n

end

/-! ## Nobody calls it off -/

/-- Carry out `n` instructions, if there are so many, with no context to ask. -/
def ahead (p : Program) (strict : Bool) (n : Nat) (x : Execution) : Execution :=
  x.after p strict .never 0 n

section
variable {p : Program} {strict : Bool} {x : Execution}

theorem after_never (asked n : Nat) : x.after p strict .never asked n = x.ahead p strict n := by
  induction n generalizing asked with
  | zero => rfl
  | succ n ih =>
    rw [after_succ', ih]
    exact (after_succ' n).symm

@[simp] theorem ahead_zero : x.ahead p strict 0 = x := rfl

theorem ahead_add (m n : Nat) :
    x.ahead p strict (m + n) = (x.ahead p strict m).ahead p strict n := by
  rw [ahead, after_add, after_never]; rfl

/-- What is left to do after `m` of `n` instructions, if `n` are enough to be over. -/
theorem isOver_ahead_sub {n : Nat} (h : (x.ahead p strict n).isOver p = true) (m : Nat) :
    ((x.ahead p strict m).ahead p strict (n - m)).isOver p = true := by
  rcases Nat.le_total m n with hmn | hnm
  · rw [← ahead_add, Nat.add_sub_cancel' hmn]; exact h
  · rw [Nat.sub_eq_zero_of_le hnm, ahead_zero, ahead, after_eq_of_isOver h hnm]; exact h

theorem ahead_eq_of_isOver {m n : Nat} (h : (x.ahead p strict m).isOver p = true)
    (hn : (x.ahead p strict n).isOver p = true) : x.ahead p strict m = x.ahead p strict n := by
  rcases Nat.le_total m n with hmn | hnm
  · exact (after_eq_of_isOver h hmn).symm
  · exact after_eq_of_isOver hn hnm

end

end Execution

end WordStack
