import WordStack.Proofs.Session.Progress

/-!
# Values below the operands

Values below those that a program was started on are never looked at: a run on a stack with more
values at the bottom does what it does without them and leaves them where they are, up to the first
instruction that finds too few operands.

* `Script.Frames`: two scripts that come to the same, one of them above some more values, unless the
  one without them runs out of operands.
* `frames_pop` … `frames_perform`: one lemma for each way of building a script.
* `Execution.advance_above`, `Execution.after_above`: one instruction, and a run of them.
* `run_above`: the same of runs of sessions with reliable output.
-/
namespace WordStack

/-- The machine `m'` is `m` with the values `below` under its operands. -/
structure Machine.Above (below : List Value) (m m' : Machine) : Prop where
  next : m'.next = m.next
  current : m'.current = m.current
  stack : m'.stack = m.stack ++ below
  mismatches : m'.mismatches = m.mismatches

namespace Execution

/-- The execution `y` has come to the same as `x`, with the values `below` under its operands. -/
structure Above (below : List Value) (x y : Execution) : Prop where
  machine : x.machine.Above below y.machine
  written : y.written = x.written
  stop : y.stop = x.stop

/-- The execution was stopped because it found too few operands. -/
def Underflows (x : Execution) : Prop := ∃ op, x.stop = some (.halt (.underflow op))

theorem Above.isOver {below : List Value} {x y : Execution} (h : x.Above below y) (p : Program) :
    y.isOver p = x.isOver p := by simp [Execution.isOver, h.stop, h.machine.next]

end Execution

/-- Played with the same text written before, `b` comes to what `a` comes to, above the values
`below`, unless `a` finds too few operands. -/
def Script.Frames (below : List Value) (a b : Script) : Prop :=
  ∀ out, (a.play out).Underflows ∨ (a.play out).Above below (b.play out)

/-! ## Scripts -/

section
variable {below : List Value} {m m' : Machine}

theorem frames_done (h : m.Above below m') : (Script.done m).Frames below (.done m') :=
  fun _ => .inr ⟨h, rfl, rfl⟩

theorem frames_halt (h : m.Above below m') (reason : Error) :
    (Script.halt reason m).Frames below (.halt reason m') :=
  fun _ => .inr ⟨h, rfl, rfl⟩

theorem frames_fault (h : m.Above below m') (f : Fault) :
    (Script.fault f m).Frames below (.fault f m') :=
  fun _ => .inr ⟨h, rfl, rfl⟩

/-- The notes may differ: they show the stack. -/
theorem frames_note {a b : Script} (h : a.Frames below b) (n n' : Note) :
    (Script.note n m a).Frames below (.note n' m' b) :=
  fun out => h out

theorem frames_write {a b : Script} (h : a.Frames below b) (text : Bytes) :
    (Script.write text m a).Frames below (.write text m' b) :=
  fun out => h (out ++ text)

theorem above_next (h : m.Above below m') (next : Int) :
    Machine.Above below { m with next } { m' with next } :=
  ⟨rfl, h.current, h.stack, h.mismatches⟩

theorem above_current (h : m.Above below m') (current : Int) :
    Machine.Above below { m with current } { m' with current } :=
  ⟨h.next, rfl, h.stack, h.mismatches⟩

theorem above_push (h : m.Above below m') (v : Value) : (m.push v).Above below (m'.push v) :=
  ⟨h.next, h.current, by simp [Machine.push, h.stack], h.mismatches⟩

/-- An operand that is there is the same; if there is none the script halts. -/
theorem frames_pop (h : m.Above below m') (op : Op) {k : Value → Machine → Script}
    (hk : ∀ v n n', n.Above below n' → (k v n).Frames below (k v n')) :
    (m.pop op k).Frames below (m'.pop op k) := by
  unfold Machine.pop
  cases hstack : m.stack with
  | nil => exact fun out => .inl ⟨op, rfl⟩
  | cons v rest =>
    rw [h.stack, hstack]
    exact hk v _ _ ⟨h.next, h.current, rfl, h.mismatches⟩

theorem frames_mismatch (h : m.Above below m') (strict : Bool) (op : Op) (operand : Value)
    {k : Machine → Script} (hk : ∀ n n', n.Above below n' → (k n).Frames below (k n')) :
    (m.mismatch strict op operand k).Frames below (m'.mismatch strict op operand k) := by
  have hcount : Machine.Above below { m with mismatches := m.mismatches + 1 }
      { m' with mismatches := m'.mismatches + 1 } :=
    ⟨h.next, h.current, h.stack, by simp [h.mismatches]⟩
  unfold Machine.mismatch
  apply frames_note
  cases strict with
  | true => exact frames_halt hcount _
  | false => exact hk _ _ hcount

theorem frames_binary (h : m.Above below m') (strict : Bool) (op : Op)
    (f : Int32 → Int32 → Except Error Int32) :
    (m.binary strict op f).Frames below (m'.binary strict op f) := by
  unfold Machine.binary
  apply frames_pop h
  intro right m m' h
  apply frames_pop h
  intro left m m' h
  cases right with
  | text t => exact frames_mismatch h strict op _ fun _ _ => frames_done
  | int r =>
    cases left with
    | text t => exact frames_mismatch h strict op _ fun _ _ => frames_done
    | int l =>
      cases hf : f l r with
      | error e => simpa [hf] using frames_halt h e
      | ok n => simpa [hf] using frames_done (above_push h (.int n))

theorem frames_truth (h : m.Above below m') (strict : Bool) (op : Op)
    {k : Bool → Machine → Script}
    (hk : ∀ holds n n', n.Above below n' → (k holds n).Frames below (k holds n')) :
    (m.truth strict op k).Frames below (m'.truth strict op k) := by
  unfold Machine.truth
  apply frames_pop h
  intro v m m' h
  cases v with
  | int n => exact hk _ m m' h
  | text t => exact frames_mismatch h strict op _ fun _ _ => hk false _ _

/-- A jump to where the table points, moved by `land`. -/
theorem frames_jump (h : m.Above below m') (p : Program) (land : Int → Int) :
    (m.target p fun t => m.jump (land t)).Frames below
      (m'.target p fun t => m'.jump (land t)) := by
  unfold Machine.target
  rw [h.current]
  cases p.target? m.current with
  | none => exact frames_halt h _
  | some t => exact frames_note (frames_done (above_next h (land t))) _ _

/-- A condition and, unless it holds, a jump. -/
theorem frames_branch (h : m.Above below m') (p : Program) (strict : Bool) (op : Op)
    (land : Int → Int) :
    (m.truth strict op fun holds m =>
      if holds then .done m else m.target p fun t => m.jump (land t)).Frames below
    (m'.truth strict op fun holds m =>
      if holds then .done m else m.target p fun t => m.jump (land t)) := by
  apply frames_truth h
  intro holds m m' h
  cases holds with
  | true => exact frames_done h
  | false => exact frames_jump h p land

/-- No operation looks below its operands. -/
theorem frames_perform (h : m.Above below m') (p : Program) (strict : Bool) (op : Op) :
    (m.perform p strict op).Frames below (m'.perform p strict op) := by
  cases op <;> simp only [Machine.perform]
  case push =>
    rw [h.current]
    cases p.fetch? m.current with
    | none => exact frames_fault h _
    | some i => exact frames_done (above_push h _)
  case ifTest => exact frames_branch h p strict .ifTest id
  case doTest => exact frames_branch h p strict .doTest p.past
  case wend => exact frames_jump h p id
  case dup =>
    apply frames_pop h
    intro v m m' h
    exact frames_done (above_push (above_push h v) v)
  case print =>
    apply frames_pop h
    intro v m m' h
    exact frames_write (frames_write (frames_done h) _) _
  case whileMark | endMark | word => exact frames_done h
  case unknown past => exact frames_fault h _
  all_goals exact frames_binary h strict _ _

theorem frames_step (h : m.Above below m') (p : Program) (strict : Bool) :
    (m.step p strict).Frames below (m'.step p strict) := by
  have hcurrent := above_current h m.next
  simp only [Machine.step, h.next]
  cases p.fetch? m.next with
  | none => exact frames_fault (above_next hcurrent m.next) _
  | some i =>
    apply frames_note
    exact frames_perform (above_next hcurrent (m.next + 1)) p strict i.op

end

/-! ## Executions -/

namespace Execution

variable {below : List Value} {p : Program} {strict : Bool} {context : Context} {asked : Nat}
  {x y : Execution}

/-- One instruction, unless it finds too few operands. -/
theorem advance_above (h : x.Above below y) (answer : Option Error)
    (hx : ¬ (x.advance p strict answer).Underflows) :
    (x.advance p strict answer).Above below (y.advance p strict answer) := by
  cases hover : x.isOver p with
  | true =>
    rw [advance_of_isOver hover, advance_of_isOver ((h.isOver p).trans hover)]
    exact h
  | false =>
    have hy : y.isOver p = false := (h.isOver p).trans hover
    simp only [advance, hover, hy, Bool.false_eq_true, if_false, h.written] at hx ⊢
    rcases frames_step h.machine p strict x.written with ⟨op, hop⟩ | habove
    · exact absurd ⟨op, by simp [hop]⟩ hx
    · exact ⟨habove.machine, habove.written, by simp [habove.stop]⟩

/-- What was stopped for want of operands stays so. -/
theorem Underflows.advance (h : x.Underflows) (answer : Option Error) :
    (x.advance p strict answer).Underflows := by
  obtain ⟨op, hop⟩ := h
  have hover : x.isOver p = true := by simp [isOver, hop]
  rw [advance_of_isOver hover]
  exact ⟨op, hop⟩

/-- A run of instructions, unless one of them finds too few operands. -/
theorem after_above (h : x.Above below y) (n : Nat)
    (hx : ¬ (x.after p strict context asked n).Underflows) :
    (x.after p strict context asked n).Above below (y.after p strict context asked n) := by
  induction n with
  | zero => exact h
  | succ n ih =>
    rw [after_succ'] at hx ⊢
    rw [after_succ']
    exact advance_above (ih fun hu => hx (hu.advance _)) _ hx

end Execution

/-! ## Runs -/

namespace Session

/-- Two runs since `s` came to `s'` and to `t'`: the machines differ in the values `below` under the
operands of `t'` only, and the same text was printed. -/
structure Framed (below : List Value) (s s' t' : Session) : Prop where
  machine : s'.machine.Above below t'.machine
  printed : ∀ w i, s.Feeds w i → t'.printed w i = s'.printed w i

variable {s s' : Session} {below : List Value} {m : Machine} {context : Context} {n : Nat}

/-- Whether a session is steady has nothing to do with its machine. -/
theorem steady_setMachine (hs : s.Steady) (m : Machine) : Steady { s with machine := m } :=
  ⟨hs.outlet, hs.writers, hs.logger⟩

theorem outcomeOf_above {p : Program} {x y : Execution} (h : x.Above below y) :
    outcomeOf p y = outcomeOf p x := by
  unfold outcomeOf
  rw [h.stop, h.machine.next]

theorem not_underflows_of_outcomeOf {p : Program} {x : Execution}
    (h : ∀ op, outcomeOf p x ≠ .ended (some (.underflow op))) : ¬ x.Underflows := by
  rintro ⟨op, hop⟩
  exact h op (by simp [outcomeOf, hop])

/-- A run above some more values, unless it finds too few operands without them. -/
theorem run_framed (hs : s.Steady) (hm : s.machine.Above below m) {outcome : Outcome}
    (hrun : s.run context n = (outcome, s'))
    (hout : ∀ op, outcome ≠ .ended (some (.underflow op))) :
    ∃ t', Session.run context n { s with machine := m } = (outcome, t') ∧
      s.Framed below s' t' ∧ ∀ error, outcome = .ended error →
        (∀ f, error ≠ some (.crashedBy name (.fault f))) →
        ∀ w i, s.Feeds w i → t'.host.received i = s'.host.received i := by
  obtain ⟨t', hrun', hsettles'⟩ := run_of_steady (steady_setMachine hs m) context n
  obtain ⟨rfl, hsettles⟩ := settles_of_run hs hrun
  have hstart : Execution.Above below { machine := s.machine } { machine := m } := ⟨hm, rfl, rfl⟩
  have habove : (s.execution context 0 n).Above below
      (execution { s with machine := m } context 0 n) :=
    Execution.after_above hstart n (not_underflows_of_outcomeOf hout)
  generalize s.execution context 0 n = x at hsettles hout habove ⊢
  generalize execution { s with machine := m } context 0 n = y at hrun' hsettles' habove
  have hsame : outcomeOf s.program y = outcomeOf s.program x := outcomeOf_above habove
  have hprinted : ∀ w i, s.Feeds w i → t'.printed w i = s'.printed w i := by
    intro w i hw
    have hw' : Feeds { s with machine := m } w i := ⟨hw.outlet, hw.logger⟩
    rw [hsettles.printed hw, hsettles'.printed hw', habove.written]
    rfl
  refine ⟨t', by rw [hrun', hsame], ⟨?_, hprinted⟩, ?_⟩
  · rw [hsettles.machine, hsettles'.machine]; exact habove.machine
  · intro error herror hcrash w i hw
    -- a halt, like a normal end, leaves nothing waiting
    have hfault : ∀ f, x.stop ≠ some (.fault f) := by
      intro f hf
      apply hcrash f
      simpa [outcomeOf, hf] using herror.symm
    have hflushed := hsettles.flushed error herror hfault
    have hflushed' := hsettles'.flushed error (hsame.trans herror) (by rwa [habove.stop])
    have hmem : w ∈ s'.outlet := by rw [hsettles.tells.outlet]; exact hw.outlet.mem
    have hmem' : w ∈ t'.outlet := by rw [hsettles'.tells.outlet]; exact hw.outlet.mem
    rw [← printed_of_flushed hflushed hmem, ← printed_of_flushed hflushed' hmem']
    exact hprinted w i hw

end Session

/-- **Values below the operands change nothing.** A run above some more values ends as it does
without them, whatever the program and the context, unless it finds too few operands without them:
with the same error, position, count of mismatches and printed text, and with these values below
what is then on the stack. A run that ends for want of operands goes the same way up to the
instruction in front of the one that ends it. -/
theorem run_above {s : Session} (hs : s.Steady) {below : List Value} {m : Machine}
    (hm : s.machine.Above below m) (context : Context) :
    (∀ n error s', s.run context n = (.ended error, s') → (∀ op, error ≠ some (.underflow op)) →
      ∃ t', Session.run context n { s with machine := m } = (.ended error, t') ∧
        s.Framed below s' t' ∧ ((∀ f, error ≠ some (.crashedBy Session.name (.fault f))) →
          ∀ w i, s.Feeds w i → t'.host.received i = s'.host.received i)) ∧
    (∀ n op s', s.EndsAt context n (some (.underflow op)) s' → ∀ k < n, ∃ s₁ t₁,
      s.run context k = (.unfinished, s₁) ∧
      Session.run context k { s with machine := m } = (.unfinished, t₁) ∧
      s.Framed below s₁ t₁) := by
  constructor
  · intro n error s' hrun hout
    obtain ⟨t', hrun', hframed, hreceived⟩ :=
      Session.run_framed hs hm hrun fun op he => hout op (Outcome.ended.inj he)
    exact ⟨t', hrun', hframed, hreceived error rfl⟩
  · intro n op s' hends k hk
    have hrun := Session.run_eq_of_fst (hends.before k hk)
    obtain ⟨t₁, hrun', hframed, -⟩ := Session.run_framed hs hm hrun fun op he => nomatch he
    exact ⟨_, t₁, hrun, hrun', hframed⟩

/-- The program `+ print +` on the numbers 3 and 4, above some more values. -/
def Session.addTwice (below : List Value) : Session :=
  .inMemory ⟨#[{ op := .add }, { op := .print }, { op := .add }], #[none, none, none]⟩
    ([.int 4, .int 3] ++ below)

/-- Called off behind the `print`, and up to the `+` that finds too few operands. -/
theorem run_above_addTwice : ∃ t t' s' : Session,
    (Session.addTwice [.text (bytes "x")]).run (.after 1 .canceled) 2 =
      (.ended (some .canceled), t) ∧
    t.machine.stack = [.text (bytes "x")] ∧ t.host.received 0 = bytes "7\n" ∧
    (Session.addTwice []).EndsAt .never 3 (some (.underflow .add)) s' ∧
    (Session.addTwice [.text (bytes "x")]).run .never 2 = (.unfinished, t') ∧
    t'.machine.stack = [.text (bytes "x")] := by
  have hs : (Session.addTwice []).Steady := Session.steady_inMemory _ _
  have hm : (Session.addTwice []).machine.Above [.text (bytes "x")]
      (Session.addTwice [.text (bytes "x")]).machine := ⟨rfl, rfl, rfl, rfl⟩
  have hends : (Session.addTwice []).EndsAt .never 3 (some (.underflow .add))
      ((Session.addTwice []).run .never 3).2 := by
    refine ⟨Session.run_eq_of_fst (by decide +kernel), ?_⟩
    decide +kernel
  have hrun : (Session.addTwice []).run (.after 1 .canceled) 2 =
      (.ended (some .canceled), ((Session.addTwice []).run (.after 1 .canceled) 2).2) :=
    Session.run_eq_of_fst (by decide +kernel)
  obtain ⟨t, hrun', hframed, hreceived⟩ := (run_above hs hm _).1 2 _ _ hrun (by simp)
  obtain ⟨s₁, t', hs₁, ht', hframed'⟩ := (run_above hs hm _).2 3 _ _ hends 2 (by omega)
  have hs₁ : s₁ = ((Session.addTwice []).run .never 2).2 := by rw [hs₁]
  refine ⟨t, t', _, hrun', ?_, ?_, hends, ht', ?_⟩
  · rw [hframed.machine.stack]; decide +kernel
  · rw [hreceived (by simp) (.direct 0) 0 (Session.feeds_inMemory _ _)]; decide +kernel
  · rw [hframed'.machine.stack, hs₁]; decide +kernel

end WordStack
