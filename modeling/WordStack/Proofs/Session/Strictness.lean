import WordStack.Proofs.Session.Interruption

/-!
# Strict and lenient machines

A strict machine does what a lenient one does up to the first operand that is no integer, and halts
there.

* `Op.checked`, `Op.offender?`: how many operands an operation checks, and which one it complains
  about.
* `Machine.Cuts`: two scripts that come to the same, unless the lenient one counts a mismatch and
  the strict one halts with it. `cuts_binary`, `cuts_truth` and `cuts_perform` give this for every
  operation.
* `Execution.advance_strict`, `Execution.after_strict`: one instruction, and a run of them.
* `run_strict`: the same of runs of sessions with reliable output.
-/
namespace WordStack

/-- Whether a value is a text. -/
def Value.isText : Value → Bool
  | .int _ => false
  | .text _ => true

/-- How many operands an operation checks to be integers. -/
def Op.checked : Op → Nat
  | .add | .sub | .mul | .div | .mod | .eq | .lt | .mt => 2
  | .ifTest | .doTest => 1
  | _ => 0

/-- The operand that an operation complains about: of those that it checks, the first one to be
popped that is no integer. -/
def Op.offender? (op : Op) (stack : List Value) : Option Value :=
  (stack.take op.checked).find? Value.isText

/-- The machine that halts at a mismatch: the operands are gone, and nothing is pushed. -/
def Machine.refused (m : Machine) (op : Op) : Machine :=
  { m with stack := m.stack.drop op.checked, mismatches := m.mismatches + 1 }

/-- Played with the same text written before, the lenient script `a` counts no mismatch and the
strict one `b` comes to the same, or `a` counts one and `b` halts with it. -/
def Machine.Cuts (m : Machine) (op : Op) (a b : Script) : Prop :=
  ∀ out, (a.play out).machine.mismatches = m.mismatches ∧ b.play out = a.play out ∨
    (a.play out).machine.mismatches = m.mismatches + 1 ∧
      ∃ v, op.offender? m.stack = some v ∧ op.checked ≤ m.stack.length ∧ b.play out =
        { machine := m.refused op, written := out, stop := some (.halt (.typeMismatch op v)) }

/-! ## Scripts -/

section
variable (m : Machine) (p : Program) {op : Op}

/-- An operation that checks nothing. -/
theorem cuts_refl {a : Script} (h : ∀ out, (a.play out).machine.mismatches = m.mismatches) :
    m.Cuts op a a :=
  fun out => .inl ⟨h out, rfl⟩

theorem cuts_binary (hop : op.checked = 2) (f : Int32 → Int32 → Except Error Int32) :
    m.Cuts op (m.binary false op f) (m.binary true op f) := by
  intro out
  obtain ⟨next, current, stack, touched, mismatches⟩ := m
  match stack with
  | [] | [.int _] | [.text _] => exact .inl ⟨rfl, rfl⟩
  | .text t :: v :: rest =>
    refine .inr ⟨rfl, .text t, ?_, ?_, ?_⟩
    · simp [Op.offender?, hop, Value.isText]
    · simp [hop]
    · simp [Machine.binary, Machine.pop, Machine.mismatch, Script.play, Machine.refused, hop]
  | .int r :: .text t :: rest =>
    refine .inr ⟨rfl, .text t, ?_, ?_, ?_⟩
    · simp [Op.offender?, hop, Value.isText]
    · simp [hop]
    · simp [Machine.binary, Machine.pop, Machine.mismatch, Script.play, Machine.refused, hop]
  | .int r :: .int l :: rest =>
    refine .inl ⟨?_, rfl⟩
    simp only [Machine.binary, Machine.pop]
    cases f l r <;> rfl

theorem cuts_truth (hop : op.checked = 1) {k : Bool → Machine → Script}
    (hk : ∀ holds m out, ((k holds m).play out).machine.mismatches = m.mismatches) :
    m.Cuts op (m.truth false op k) (m.truth true op k) := by
  intro out
  obtain ⟨next, current, stack, touched, mismatches⟩ := m
  match stack with
  | [] => exact .inl ⟨rfl, rfl⟩
  | .int n :: rest => exact .inl ⟨hk _ _ out, rfl⟩
  | .text t :: rest =>
    refine .inr ⟨hk _ _ out, .text t, ?_, ?_, ?_⟩
    · simp [Op.offender?, hop, Value.isText]
    · simp [hop]
    · simp [Machine.truth, Machine.pop, Machine.mismatch, Script.play, Machine.refused, hop]

/-- A jump counts nothing. -/
theorem mismatches_target (land : Int → Int) (out : Bytes) :
    ((m.target p fun t => m.jump (land t)).play out).machine.mismatches = m.mismatches := by
  unfold Machine.target
  cases p.target? m.current <;> rfl

theorem cuts_perform (op : Op) : m.Cuts op (m.perform p false op) (m.perform p true op) := by
  -- what follows a condition
  have hbranch : ∀ (land : Int → Int) (holds : Bool) (m : Machine) (out : Bytes),
      ((if holds then Script.done m else m.target p fun t => m.jump (land t)).play
        out).machine.mismatches = m.mismatches := by
    intro land holds m out
    cases holds with
    | true => rfl
    | false => exact mismatches_target m p land out
  cases op <;> simp only [Machine.perform]
  case ifTest => exact cuts_truth m rfl (hbranch id)
  case doTest => exact cuts_truth m rfl (hbranch p.past)
  case wend => exact cuts_refl m (mismatches_target m p id)
  case push =>
    refine cuts_refl m fun out => ?_
    cases p.fetch? m.current <;> rfl
  case dup | print =>
    refine cuts_refl m fun out => ?_
    obtain ⟨next, current, stack, touched, mismatches⟩ := m
    cases stack <;> rfl
  case whileMark | endMark | word | unknown => exact cuts_refl m fun out => rfl
  all_goals exact cuts_binary m (by rfl) _

end

/-! ## Executions -/

namespace Execution

variable {p : Program} {c : Context} {asked n : Nat} {x : Execution}

/-- The next instruction is `i`, a lenient machine counts a mismatch in it, and `v` is the operand
that is no integer. -/
structure Mismatched (p : Program) (x : Execution) (i : Instruction) (v : Value) : Prop where
  instruction : p.fetch? x.machine.next = some i
  operands : i.op.checked ≤ x.machine.stack.length
  offender : i.op.offender? x.machine.stack = some v

/-- The execution that halts at the next instruction with a mismatch. -/
def refused (x : Execution) (op : Op) (v : Value) : Execution where
  machine := { x.machine with current := x.machine.next, next := x.machine.next + 1 }.refused op
  written := x.written
  stop := some (.halt (.typeMismatch op v))

/-- One instruction, and what the context says to it. -/
theorem advance_strict (p : Program) (answer : Option Error) (x : Execution) :
    (x.advance p false answer).machine.mismatches = x.machine.mismatches ∧
      x.advance p true answer = x.advance p false answer ∨
    (x.advance p false answer).machine.mismatches = x.machine.mismatches + 1 ∧
      x.isOver p = false ∧
      ∃ i v, x.Mismatched p i v ∧ x.advance p true answer = x.refused i.op v := by
  cases hover : x.isOver p with
  | true =>
    rw [advance_of_isOver hover, advance_of_isOver hover]
    exact .inl ⟨rfl, rfl⟩
  | false =>
    cases hi : p.fetch? x.machine.next with
    | none => exact .inl (by simp [advance, hover, Machine.step, hi, Script.play])
    | some i =>
      rw [advance_eq_carry hover hi, advance_eq_carry hover hi]
      rcases cuts_perform { x.machine with current := x.machine.next, next := x.machine.next + 1 } p
        i.op x.written with ⟨hcount, hsame⟩ | ⟨hcount, v, hv, hlength, hcut⟩
      · exact .inl ⟨hcount, by rw [carry, hsame]; rfl⟩
      · refine .inr ⟨hcount, rfl, i, v, ⟨hi, hlength, hv⟩, ?_⟩
        rw [carry, hcut]; rfl

/-- The count of mismatches never falls. -/
theorem mismatches_le_advance (p : Program) (answer : Option Error) (x : Execution) :
    x.machine.mismatches ≤ (x.advance p false answer).machine.mismatches := by
  rcases advance_strict p answer x with ⟨hcount, -⟩ | ⟨hcount, -⟩
  · exact Nat.le_of_eq hcount.symm
  · rw [hcount]; exact Nat.le_succ _

theorem mismatches_le_after (p : Program) (c : Context) (asked n : Nat) (x : Execution) :
    x.machine.mismatches ≤ (x.after p false c asked n).machine.mismatches :=
  after_invariant (P := fun y => x.machine.mismatches ≤ y.machine.mismatches) (Nat.le_refl _)
    (fun y k h => Nat.le_trans h (mismatches_le_advance p (c k) y)) n

/-- A run of instructions in which no mismatch is met. -/
theorem after_strict (h : (x.after p false c asked n).machine.mismatches = x.machine.mismatches) :
    x.after p true c asked n = x.after p false c asked n := by
  induction n with
  | zero => rfl
  | succ n ih =>
    rw [after_succ'] at h
    have hbefore := mismatches_le_after p c asked n x
    rw [after_succ', after_succ']
    rcases advance_strict p (c (asked + n)) (x.after p false c asked n) with
      ⟨hcount, hsame⟩ | ⟨hcount, -⟩
    · rw [ih (hcount.symm.trans h), hsame]
    · omega

/-- The instruction with which the first mismatch is met. -/
theorem after_succ_strict
    (h : (x.after p false c asked n).machine.mismatches = x.machine.mismatches)
    (hraised : (x.after p false c asked (n + 1)).machine.mismatches ≠ x.machine.mismatches) :
    (x.after p false c asked (n + 1)).machine.mismatches = x.machine.mismatches + 1 ∧
      (x.after p false c asked n).isOver p = false ∧
      ∃ i v, (x.after p false c asked n).Mismatched p i v ∧
        x.after p true c asked (n + 1) = (x.after p false c asked n).refused i.op v := by
  rw [after_succ'] at hraised
  rw [after_succ', after_succ', after_strict h]
  rcases advance_strict p (c (asked + n)) (x.after p false c asked n) with
    ⟨hcount, -⟩ | ⟨hcount, hover, hcut⟩
  · exact absurd (hcount.trans h) hraised
  · exact ⟨hcount.trans (by rw [h]), hover, hcut⟩

end Execution

/-! ## Runs -/

namespace Session

/-- The same session with a strict machine. -/
def strictly (s : Session) : Session := { s with strict := true }

/-- Two runs came to the same: they end alike, with the same machine, and have printed the same text
to the sinks that `s` feeds. -/
structure Agrees (s : Session) (a b : Outcome × Session) : Prop where
  outcome : b.1 = a.1
  machine : b.2.machine = a.2.machine
  printed : ∀ w i, s.Feeds w i → b.2.printed w i = a.2.printed w i
  received : ∀ error, a.1 = .ended error → ∀ w i, s.Feeds w i →
    b.2.host.received i = a.2.host.received i

/-- The run of `s` that has carried out `n` instructions and come to `u` meets its first mismatch
with the next one. The strict run ends there: with the operation and the operand that is no integer,
having taken the operands off the stack and pushed nothing, and having printed no more. -/
structure CutAt (code : List Instruction) (s : Session) (c : Context) (n : Nat) (u : Session)
    (k : Nat) (i : Instruction) (v : Value) (t : Session) : Prop where
  position : u.machine.next = k
  instruction : code[k]? = some i
  operands : i.op.checked ≤ u.machine.stack.length
  offender : i.op.offender? u.machine.stack = some v
  ends : s.strictly.EndsAt c (n + 1) (some (.typeMismatch i.op v)) t
  machine : t.machine = { u.machine with
    current := k, next := k + 1, stack := u.machine.stack.drop i.op.checked,
    mismatches := s.machine.mismatches + 1 }
  received : ∀ w j, s.Feeds w j → t.host.received j = u.printed w j

variable {code : List Instruction} {s : Session} {c : Context} {n : Nat}

theorem steady_strictly (hs : s.Steady) : s.strictly.Steady := ⟨hs.outlet, hs.writers, hs.logger⟩

theorem feeds_strictly {w : Writer} {i : Nat} (hw : s.Feeds w i) : s.strictly.Feeds w i :=
  ⟨hw.outlet, hw.logger⟩

section
variable (hp : Program.resolve code = .ok s.program) (hknown : ∀ i ∈ code, i.op ∈ Op.known)
  (hlow : 0 ≤ s.machine.next) (hhigh : s.machine.next ≤ s.program.size) (hs : s.Steady)
  (hlenient : s.strict = false)

include hs hlenient in
/-- The count of mismatches after a run, by its execution. -/
theorem mismatches_of_run (c : Context) (n : Nat) : (s.run c n).2.machine.mismatches =
    (Execution.after s.program false c 0 n { machine := s.machine }).machine.mismatches := by
  rw [(run_snd_of_steady hs c n).machine, execution, hlenient]

include hp hknown hlow hhigh hs hlenient

/-- No mismatch has been met. -/
theorem agrees_of_mismatches (h : (s.run c n).2.machine.mismatches = s.machine.mismatches) :
    s.Agrees (s.run c n) (s.strictly.run c n) := by
  have hsame : s.strictly.execution c 0 n = s.execution c 0 n := by
    rw [mismatches_of_run hs hlenient] at h
    rw [execution, execution, hlenient]
    exact Execution.after_strict h
  have hs' := steady_strictly hs
  have hsettles := run_snd_of_steady hs c n
  have hsettles' := run_snd_of_steady hs' c n
  rw [hsame] at hsettles'
  have hprinted : ∀ w i, s.Feeds w i →
      (s.strictly.run c n).2.printed w i = (s.run c n).2.printed w i := by
    intro w i hw
    rw [hsettles'.printed (feeds_strictly hw), hsettles.printed hw]; rfl
  refine ⟨?_, by rw [hsettles'.machine, hsettles.machine], hprinted, ?_⟩
  · rw [run_fst_of_steady hs', run_fst_of_steady hs, hsame]; rfl
  · intro error hend w i hw
    rw [run_fst_of_steady hs] at hend
    have hfault := execution_not_fault hp hknown hlow hhigh c n
    rw [← printed_of_flushed (hsettles.flushed error hend hfault)
        (by rw [hsettles.tells.outlet]; exact hw.outlet.mem),
      ← printed_of_flushed (hsettles'.flushed error hend hfault)
        (by rw [hsettles'.tells.outlet]; exact hw.outlet.mem), hprinted w i hw]

/-- The next instruction meets the first mismatch. -/
theorem cutAt_of_mismatches (h : (s.run c n).2.machine.mismatches = s.machine.mismatches)
    (hraised : (s.run c (n + 1)).2.machine.mismatches ≠ s.machine.mismatches) :
    (s.run c (n + 1)).2.machine.mismatches = s.machine.mismatches + 1 ∧
      ∃ k i v, s.CutAt code c n (s.run c n).2 k i v (s.strictly.run c (n + 1)).2 := by
  have hs' := steady_strictly hs
  have hexec : s.execution c 0 n =
      Execution.after s.program false c 0 n { machine := s.machine } := by
    rw [execution, hlenient]
  have hcount := h
  rw [mismatches_of_run hs hlenient] at h hraised ⊢
  obtain ⟨hone, hover, i, v, hmismatched, hlast⟩ := Execution.after_succ_strict h hraised
  have hsame : s.strictly.execution c 0 n = s.execution c 0 n := by
    rw [hexec]; exact Execution.after_strict h
  rw [← hexec] at hover hmismatched hlast
  have hcut : s.strictly.execution c 0 (n + 1) = (s.execution c 0 n).refused i.op v := hlast
  obtain ⟨k, -, hk, -⟩ := (execution_safe hp hknown hlow hhigh c n).exists_instruction hp hover
  have hi := hmismatched.instruction
  rw [hk, Program.fetch?_of_resolve hp] at hi
  have hsettles := run_snd_of_steady hs c n
  have hsettles' := run_snd_of_steady hs' c (n + 1)
  have hout : outcomeOf s.program (s.strictly.execution c 0 (n + 1)) =
      .ended (some (.typeMismatch i.op v)) := by rw [hcut]; rfl
  have hends : s.strictly.EndsAt c (n + 1) (some (.typeMismatch i.op v))
      (s.strictly.run c (n + 1)).2 := by
    refine endsAt_of_execution hs' hout fun m hm => ?_
    -- if the strict run were over before, it would be over here
    rw [Bool.eq_false_iff]
    intro hend
    have hstill : s.strictly.execution c 0 n = s.strictly.execution c 0 m :=
      Execution.after_eq_of_isOver hend (by omega)
    rw [← hsame, hstill] at hover
    exact absurd (hend.symm.trans hover) (by decide)
  refine ⟨hone, k, i, v, ?_, hi, ?_, ?_, hends, ?_, fun w j hw => ?_⟩
  · rw [hsettles.machine, hk]
  · rw [hsettles.machine]; exact hmismatched.operands
  · rw [hsettles.machine]; exact hmismatched.offender
  · rw [hsettles'.machine, hcut, ← hcount, hsettles.machine, ← hk]; rfl
  · have hfault : ∀ f, (s.strictly.execution c 0 (n + 1)).stop ≠ some (.fault f) := by
      intro f hf
      rw [hcut] at hf; cases hf
    have hflushed := hsettles'.flushed _ hout hfault
    rw [← printed_of_flushed hflushed (by rw [hsettles'.tells.outlet]; exact hw.outlet.mem),
      hsettles'.printed (feeds_strictly hw), hsettles.printed hw, hcut]
    rfl

end

end Session

/-- **A strict run is a lenient run cut at the first mismatch.** As long as the lenient run has met
no operand that is no integer, the strict run is where it is. If it ever meets one, then the strict
run carries out the same instructions before that and halts there. -/
theorem run_strict {code : List Instruction} {s : Session}
    (hp : Program.resolve code = .ok s.program) (hknown : ∀ i ∈ code, i.op ∈ Op.known)
    (hlow : 0 ≤ s.machine.next) (hhigh : s.machine.next ≤ s.program.size) (hs : s.Steady)
    (hlenient : s.strict = false) (c : Context) :
    (∀ n, (s.run c n).2.machine.mismatches = s.machine.mismatches →
      s.Agrees (s.run c n) (s.strictly.run c n)) ∧
    ∀ N, (s.run c N).2.machine.mismatches ≠ s.machine.mismatches →
      ∃ n < N, (∀ m ≤ n, (s.run c m).2.machine.mismatches = s.machine.mismatches) ∧
        (s.run c (n + 1)).2.machine.mismatches = s.machine.mismatches + 1 ∧
        ∃ k i v t, s.CutAt code c n (s.run c n).2 k i v t := by
  refine ⟨fun n h => Session.agrees_of_mismatches hp hknown hlow hhigh hs hlenient h, ?_⟩
  intro N hN
  have hex : ∃ m, (s.run c m).2.machine.mismatches ≠ s.machine.mismatches := ⟨N, hN⟩
  have hbefore : ∀ m < Nat.find hex, (s.run c m).2.machine.mismatches = s.machine.mismatches :=
    fun m hm => not_not.mp (Nat.find_min hex hm)
  have hraised := Nat.find_spec hex
  have hle := Nat.find_min' hex hN
  generalize Nat.find hex = first at hbefore hraised hle
  cases first with
  | zero => exact absurd (Session.mismatches_of_run hs hlenient c 0) hraised
  | succ n =>
    have hn := hbefore n (Nat.lt_succ_self n)
    obtain ⟨hone, k, i, v, hcut⟩ :=
      Session.cutAt_of_mismatches hp hknown hlow hhigh hs hlenient hn hraised
    exact ⟨n, hle, fun m hm => hbefore m (by omega), hone, k, i, v, _, hcut⟩

/-- The code `dup print 1 +`. -/
def Program.printAndAdd : Program where
  code := #[{ op := .dup }, { op := .print }, .push 1, { op := .add }]
  targets := #[none, none, none, none]

/-- A text can be printed but not added to. -/
theorem run_strict_addText : ∃ t,
    (Session.inMemory .printAndAdd [.text (bytes "ab"), .int 5]).strictly.EndsAt .never 4
      (some (.typeMismatch .add (.text (bytes "ab")))) t ∧
    t.machine.stack = [.int 5] ∧ t.machine.mismatches = 1 ∧ t.machine.next = 4 ∧
    t.host.received 0 = bytes "ab\n" := by
  have hp : Program.resolve Program.printAndAdd.code.toList = .ok .printAndAdd := rfl
  obtain ⟨-, hcut⟩ := run_strict (s := .inMemory .printAndAdd [.text (bytes "ab"), .int 5]) hp
    (by decide) (by decide) (by decide) (Session.steady_inMemory _ _) rfl .never
  obtain ⟨n, hn, -, hone, k, i, v, t, hcut⟩ := hcut 4 (by decide +kernel)
  obtain rfl : n = 3 := by
    have hcases : n = 0 ∨ n = 1 ∨ n = 2 ∨ n = 3 := by omega
    rcases hcases with rfl | rfl | rfl | hthree
    · exact absurd hone (by decide +kernel)
    · exact absurd hone (by decide +kernel)
    · exact absurd hone (by decide +kernel)
    · exact hthree
  have hstack : ((Session.inMemory .printAndAdd [.text (bytes "ab"), .int 5]).run .never
      3).2.machine.stack = [.int 1, .text (bytes "ab"), .int 5] := by decide +kernel
  have hnext : ((Session.inMemory .printAndAdd [.text (bytes "ab"), .int 5]).run .never
      3).2.machine.next = (3 : Nat) := by decide +kernel
  obtain rfl : k = 3 := by
    have := hcut.position
    omega
  obtain rfl : { op := .add } = i := Option.some.inj hcut.instruction
  obtain rfl : .text (bytes "ab") = v := by
    have := hcut.offender
    rw [hstack] at this
    exact Option.some.inj this
  refine ⟨t, hcut.ends, ?_, ?_, ?_, ?_⟩
  · rw [hcut.machine, hstack]; rfl
  · rw [hcut.machine]; rfl
  · rw [hcut.machine]; rfl
  · rw [hcut.received (.direct 0) 0 (Session.feeds_inMemory _ _)]; decide +kernel

end WordStack
