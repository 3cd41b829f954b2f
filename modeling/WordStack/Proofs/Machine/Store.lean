import WordStack.Proofs.Machine.Execution
import WordStack.Proofs.Program.Depth

/-!
# Stores: what instructions work on

A store is the operand stack, the text written so far and the count of mismatches. What a plain
instruction does to a store, and how a condition is popped from one, is said here directly, without
positions, notes or continuations.

* `Store.perform`: a plain instruction. `Store.test`: a condition.
* `carry_plain`, `carry_mark`, `carry_if`, `carry_do`, `carry_wend`: what the machine does with an
  instruction, by what it does to its store, where it goes and what stops it.
-/
namespace WordStack

/-- What instructions work on. -/
structure Store where
  /-- The operands, top first. -/
  stack : List Value
  written : Bytes := []
  mismatches : Nat := 0
  deriving DecidableEq, Repr

/-- The value of a binary operation with a left and a right operand. -/
def Op.compute (op : Op) (l r : Int32) : Except Error Int32 :=
  match op with
  | .add => .ok (l + r)
  | .sub => .ok (l - r)
  | .mul => .ok (l * r)
  | .div => if r = 0 then .error .divisionByZero else .ok (l / r)
  | .mod => if r = 0 then .error .divisionByZero else .ok (l % r)
  | .eq => .ok (if l = r then 1 else 0)
  | .lt => .ok (if r < l then 1 else 0)
  | _ => .ok (if l < r then 1 else 0)

namespace Store

/-- Count an operand that is no integer; an error if the machine is strict. -/
def mismatch (strict : Bool) (op : Op) (operand : Value) (s : Store) : Option Error × Store :=
  (if strict then some (.typeMismatch op operand) else none,
    { s with mismatches := s.mismatches + 1 })

/-- A binary operation: the right operand is on top. -/
def binary (strict : Bool) (op : Op) (s : Store) : Option Error × Store :=
  match s.stack with
  | .int r :: .int l :: rest =>
    match op.compute l r with
    | .ok n => (none, { s with stack := .int n :: rest })
    | .error e => (some e, { s with stack := rest })
  | .text t :: _ :: rest => mismatch strict op (.text t) { s with stack := rest }
  | .int _ :: .text t :: rest => mismatch strict op (.text t) { s with stack := rest }
  | _ => (some (.underflow op), { s with stack := [] })

/-- A plain instruction. -/
def perform (strict : Bool) (i : Instruction) (s : Store) : Option Error × Store :=
  match i.op, s.stack with
  | .push, _ => (none, { s with stack := .int i.int :: s.stack })
  | .word, _ => (none, s)
  | .dup, v :: rest => (none, { s with stack := v :: v :: rest })
  | .print, v :: rest =>
    (none, { s with stack := rest, written := s.written ++ v.render ++ bytes "\n" })
  | op, _ => s.binary strict op

/-- Pop a condition: why there is none, or whether it holds. -/
def test (strict : Bool) (op : Op) (s : Store) : Except Error Bool × Store :=
  match s.stack with
  | [] => (.error (.underflow op), s)
  | .int n :: rest => (.ok (0 < n), { s with stack := rest })
  | .text t :: rest =>
    match mismatch strict op (.text t) { s with stack := rest } with
    | (some e, s) => (.error e, s)
    | (none, s) => (.ok false, s)

/-- Only a division fails. -/
theorem compute_eq_error {op : Op} {l r : Int32} {e : Error} (h : op.compute l r = .error e) :
    e = .divisionByZero ∧ (op = .div ∨ op = .mod) := by
  cases op <;> simp only [Op.compute, reduceCtorEq] at h
  all_goals
    split at h
    · cases h; simp
    · cases h

end Store

/-- The store of an execution. -/
def Execution.store (x : Execution) : Store :=
  { stack := x.machine.stack, written := x.written, mismatches := x.machine.mismatches }

/-- An execution that has the store `s`, is to go on at `next`, was last at `current`, and is
stopped by `e` if that is an error. -/
structure Execution.Stands (x : Execution) (s : Store) (current next : Int) (e : Option Error) :
    Prop where
  store : x.store = s
  next : x.machine.next = next
  current : x.machine.current = current
  stop : x.stop = e.map .halt

/-! ## Operations -/

section
variable (m : Machine) (p : Program) (strict : Bool) (out : Bytes)

/-- The store of a machine that has written `out`. -/
def Machine.store : Store := { stack := m.stack, written := out, mismatches := m.mismatches }

theorem play_mismatch (op : Op) (operand : Value) :
    ((m.mismatch strict op operand .done).play out).Stands
      ((m.store out).mismatch strict op operand).2 m.current m.next
      ((m.store out).mismatch strict op operand).1 := by
  cases strict <;> exact ⟨rfl, rfl, rfl, rfl⟩

theorem play_binary (op : Op) {f : Int32 → Int32 → Except Error Int32}
    (hf : ∀ l r, f l r = op.compute l r) :
    ((m.binary strict op f).play out).Stands ((m.store out).binary strict op).2 m.current m.next
      ((m.store out).binary strict op).1 := by
  obtain ⟨next, current, stack, touched, mismatches⟩ := m
  match stack with
  | [] => exact ⟨rfl, rfl, rfl, rfl⟩
  | [.int _] | [.text _] => exact ⟨rfl, rfl, rfl, rfl⟩
  | .text _ :: _ :: rest | .int _ :: .text _ :: rest =>
    exact play_mismatch ⟨next, current, rest, touched, mismatches⟩ strict out op _
  | .int r :: .int l :: rest =>
    simp only [Machine.binary, Machine.pop, Store.binary, Machine.store, hf]
    cases op.compute l r <;> exact ⟨rfl, rfl, rfl, rfl⟩

/-- A plain operation at the current position. -/
theorem play_perform {i : Instruction} (hi : p.fetch? m.current = some i)
    (hplain : i.op.isPlain = true) :
    ((m.perform p strict i.op).play out).Stands ((m.store out).perform strict i).2 m.current m.next
      ((m.store out).perform strict i).1 := by
  obtain ⟨op, int, word⟩ := i
  cases op with
  | push => simp only [Machine.perform, hi]; exact ⟨rfl, rfl, rfl, rfl⟩
  | word => exact ⟨rfl, rfl, rfl, rfl⟩
  | dup | print =>
    obtain ⟨next, current, stack, touched, mismatches⟩ := m
    cases stack <;> exact ⟨rfl, rfl, rfl, rfl⟩
  | add => exact play_binary m strict out .add fun _ _ => rfl
  | sub => exact play_binary m strict out .sub fun _ _ => rfl
  | mul => exact play_binary m strict out .mul fun _ _ => rfl
  | div => exact play_binary m strict out .div fun _ _ => rfl
  | mod => exact play_binary m strict out .mod fun _ _ => rfl
  | eq =>
    exact play_binary m strict out .eq (f := fun l r => .ok (Machine.truthValue (l = r)))
      fun _ _ => by simp [Machine.truthValue, Op.compute]
  | lt =>
    exact play_binary m strict out .lt (f := fun l r => .ok (Machine.truthValue (r < l)))
      fun _ _ => by simp [Machine.truthValue, Op.compute]
  | mt =>
    exact play_binary m strict out .mt (f := fun l r => .ok (Machine.truthValue (l < r)))
      fun _ _ => by simp [Machine.truthValue, Op.compute]
  | _ => cases hplain

/-- A condition is popped before anything else is done. -/
theorem play_truth (op : Op) (k : Bool → Machine → Script) :
    match (m.store out).test strict op with
    | (.error e, s) => ((m.truth strict op k).play out).Stands s m.current m.next (some e)
    | (.ok holds, s) => ∃ m' : Machine, m'.store out = s ∧ m'.next = m.next ∧
        m'.current = m.current ∧ (m.truth strict op k).play out = (k holds m').play out := by
  obtain ⟨next, current, stack, touched, mismatches⟩ := m
  match stack with
  | [] => exact ⟨rfl, rfl, rfl, rfl⟩
  | .int n :: rest => exact ⟨⟨next, current, rest, touched, mismatches⟩, rfl, rfl, rfl, rfl⟩
  | .text t :: rest =>
    cases strict with
    | true => exact ⟨rfl, rfl, rfl, rfl⟩
    | false => exact ⟨⟨next, current, rest, touched, mismatches + 1⟩, rfl, rfl, rfl, rfl⟩

/-- A jump to where the table points, moved by `land`; a blank entry halts. -/
theorem play_jump (land : Int → Int) :
    match p.target? m.current with
    | some t => ((m.target p fun t => m.jump (land t)).play out).Stands (m.store out) m.current
        (land t) none
    | none => ((m.target p fun t => m.jump (land t)).play out).Stands (m.store out) m.current
        m.next (some (.unresolved m.current)) := by
  unfold Machine.target
  cases p.target? m.current <;> exact ⟨rfl, rfl, rfl, rfl⟩

/-- A condition and, unless it holds, a jump. -/
theorem play_branch (op : Op) (land : Int → Int) :
    let x := (m.truth strict op fun holds m =>
      if holds then .done m else m.target p fun t => m.jump (land t)).play out
    match (m.store out).test strict op, p.target? m.current with
    | (.error e, s), _ => x.Stands s m.current m.next (some e)
    | (.ok true, s), _ => x.Stands s m.current m.next none
    | (.ok false, s), some t => x.Stands s m.current (land t) none
    | (.ok false, s), none => x.Stands s m.current m.next (some (.unresolved m.current)) := by
  have h := play_truth m strict out op fun holds m =>
    if holds then .done m else m.target p fun t => m.jump (land t)
  cases htest : (m.store out).test strict op with
  | mk result s =>
    rw [htest] at h
    cases result with
    | error e => exact h
    | ok holds =>
      obtain ⟨m', rfl, hnext, hcurrent, hplay⟩ := h
      rw [hplay, ← hnext, ← hcurrent]
      cases holds with
      | true => exact ⟨rfl, rfl, rfl, rfl⟩
      | false =>
        have hjump := play_jump m' p out land
        cases htarget : p.target? m'.current <;> rw [htarget] at hjump <;> exact hjump

end

/-! ## One instruction -/

namespace Execution

variable {p : Program} {strict : Bool} {x : Execution} {i : Instruction}

/-- The instruction `i` at the next position, before the context is asked. -/
def carry (p : Program) (strict : Bool) (i : Instruction) (x : Execution) : Execution :=
  ({ x.machine with current := x.machine.next, next := x.machine.next + 1 }.perform p strict
    i.op).play x.written

theorem advance_eq_carry (hx : x.isOver p = false) (hi : p.fetch? x.machine.next = some i)
    (answer : Option Error) : x.advance p strict answer =
      { x.carry p strict i with stop := (x.carry p strict i).stop <|> answer.map .halt } := by
  simp [advance, hx, Machine.step, hi, Script.play, carry]

theorem ahead_one (hx : x.isOver p = false) (hi : p.fetch? x.machine.next = some i) :
    x.ahead p strict 1 = x.carry p strict i := by
  change x.advance p strict none = _
  rw [advance_eq_carry hx hi]
  simp

section
variable (p : Program) (strict : Bool) (x : Execution) {i : Instruction}

theorem carry_plain (hi : p.fetch? x.machine.next = some i) (hplain : i.op.isPlain = true) :
    (x.carry p strict i).Stands (x.store.perform strict i).2 x.machine.next (x.machine.next + 1)
      (x.store.perform strict i).1 :=
  play_perform { x.machine with current := x.machine.next, next := x.machine.next + 1 } p strict
    x.written hi hplain

/-- `while` and `end` do nothing. -/
theorem carry_mark (hop : i.op = .whileMark ∨ i.op = .endMark) :
    (x.carry p strict i).Stands x.store x.machine.next (x.machine.next + 1) none := by
  unfold carry
  rcases hop with hop | hop <;> rw [hop] <;> exact ⟨rfl, rfl, rfl, rfl⟩

/-- `if` lands on its target. -/
theorem carry_if (hop : i.op = .ifTest) :
    match x.store.test strict .ifTest, p.target? x.machine.next with
    | (.error e, s), _ =>
      (x.carry p strict i).Stands s x.machine.next (x.machine.next + 1) (some e)
    | (.ok true, s), _ => (x.carry p strict i).Stands s x.machine.next (x.machine.next + 1) none
    | (.ok false, s), some t => (x.carry p strict i).Stands s x.machine.next t none
    | (.ok false, s), none => (x.carry p strict i).Stands s x.machine.next (x.machine.next + 1)
        (some (.unresolved x.machine.next)) := by
  unfold carry
  rw [hop]
  exact play_branch { x.machine with current := x.machine.next, next := x.machine.next + 1 } p
    strict x.written .ifTest id

/-- `do` lands just past its target. -/
theorem carry_do (hop : i.op = .doTest) :
    match x.store.test strict .doTest, p.target? x.machine.next with
    | (.error e, s), _ =>
      (x.carry p strict i).Stands s x.machine.next (x.machine.next + 1) (some e)
    | (.ok true, s), _ => (x.carry p strict i).Stands s x.machine.next (x.machine.next + 1) none
    | (.ok false, s), some t => (x.carry p strict i).Stands s x.machine.next (p.past t) none
    | (.ok false, s), none => (x.carry p strict i).Stands s x.machine.next (x.machine.next + 1)
        (some (.unresolved x.machine.next)) := by
  unfold carry
  rw [hop]
  exact play_branch { x.machine with current := x.machine.next, next := x.machine.next + 1 } p
    strict x.written .doTest p.past

theorem carry_wend (hop : i.op = .wend) :
    match p.target? x.machine.next with
    | some t => (x.carry p strict i).Stands x.store x.machine.next t none
    | none => (x.carry p strict i).Stands x.store x.machine.next (x.machine.next + 1)
        (some (.unresolved x.machine.next)) := by
  unfold carry
  rw [hop]
  exact play_jump { x.machine with current := x.machine.next, next := x.machine.next + 1 } p
    x.written id

end

end Execution

end WordStack
