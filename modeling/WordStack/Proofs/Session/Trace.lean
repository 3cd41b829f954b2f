import WordStack.Proofs.Session.Notes

/-!
# The trace of a run

A run logs a line for its start, lines behind a tab for every instruction, and a last line that tells
how it ended. Which lines these are can be told from the machine in front of and behind every
instruction. The tab is taken off again however a run ends, so that the lines of the next run stand
where those of the first did.

* `Session.course`: a run up to its end. `Session.Observed.course_traces`: the lines of a course.
* `Session.Observed.breaks`: what breaks a run off without a line.
* `Session.trace`, `Session.Ending.Fits`: all lines of a run, and what its ending says about it.
* `run_logs_trace`: runs one after the other.
-/
namespace WordStack

open Act (stateOf)

namespace Session

variable {s s' : Session} {r : Nat} {a : List Bytes}

/-! ## Runs -/

/-- A run up to its end: its start, and so many instructions; whether no instruction is left. -/
def course (c : Context) (fuel : Nat) : M Bool := do
  start
  Session.indented (execute c fuel 0)

variable {c : Context} {n : Nat}

/-- A course that has not ended goes on by one instruction. -/
theorem course_succ (c : Context) (n : Nat) (s : Session) :
    course c (n + 1) s = (course c n >>= fun stopped =>
      if stopped then pure true else Session.indented (execute c 1 n)) s := by
  unfold course
  rw [bind_assoc]
  cases hstart : start s with
  | error e s₁ => rw [Act.bind_error hstart, Act.bind_error hstart]
  | ok _ s₁ =>
    rw [Act.bind_ok hstart, Act.bind_ok hstart, indented_add c n 1 0 s₁, Nat.zero_add]

/-- What a run does behind its course. -/
def conclude (stopped : Bool) : M Outcome :=
  if stopped then (do return .ended (← finish)) else return .unfinished

theorem run_eq_course (c : Context) (n : Nat) (s : Session) :
    s.run c n = contained (course c n >>= conclude) s := by
  unfold run proceed course
  rw [bind_assoc]
  rfl

theorem run_of_course_false (h : course c n s = .ok false s') : s.run c n = (.unfinished, s') := by
  have hact : (course c n >>= conclude) s = .ok .unfinished s' := Act.bind_ok h
  rw [run_eq_course, contained_ok hact]
  rfl

theorem run_of_course_error {e : Abort} (h : course c n s = .error e s') :
    s.run c n = (.ended (e.toError name).withoutHalt, s') := by
  rw [run_eq_course]
  exact contained_error (Act.bind_error h)

/-- A course at its end leaves the rest to the end of the run, whose error, or abort, counts. -/
theorem run_of_course_true (h : course c n s = .ok true s') :
    s.run c n = match finish s' with
      | .ok error t => (.ended (error.bind Error.withoutHalt), t)
      | .error e t => (.ended (e.toError name).withoutHalt, t) := by
  have hrun : s.run c n = contained (do return .ended (← finish)) s' := by
    rw [run_eq_course]
    exact contained_congr (Act.bind_ok h)
  rw [hrun]
  cases hfinish : finish s' with
  | ok error t =>
    have hact : (do return .ended (← finish) : M Outcome) s' = .ok (.ended error) t :=
      Act.bind_ok hfinish
    rw [contained_ok hact]
    rfl
  | error e t => exact contained_error (Act.bind_error hfinish)

theorem course_within (c : Context) (n : Nat) : Act.Relates Within (course c n) := by
  have hstart : Act.Relates Within start := fun s => (start_beside s).within
  exact hstart.bind fun _ => indented_within (execute_within c n 0)

/-- The end of a run leaves the machine alone. -/
theorem run_machine (c : Context) (n : Nat) (s : Session) :
    (s.run c n).2.machine = (stateOf (course c n s)).machine := by
  match h : course c n s with
  | .ok false t => rw [run_of_course_false h]; rfl
  | .error e t => rw [run_of_course_error h]; rfl
  | .ok true t =>
    have hmachine := (finish_beside t).machine
    rw [run_of_course_true h]
    cases hfinish : finish t with
    | ok error t' => rw [hfinish] at hmachine; exact hmachine
    | error e t' => rw [hfinish] at hmachine; exact hmachine

/-- The lines that a run logs for the instruction behind `k` others, if it comes so far. -/
def linesAt (s : Session) (c : Context) (k : Nat) : List Bytes :=
  match s.run c k with
  | (.unfinished, t) =>
    (t.machine.notes s.program s.strict (s.run c (k + 1)).2.machine).map (noteLine s.markWidth)
  | (.ended _, _) => []

/-- The lines of a session go to the recorder `r`, which never crashes, there is no listing, and the
program was resolved from known operations. -/
structure Observed (r : Nat) (s : Session) : Prop where
  logger : s.logger = .recorder r
  calm : ∀ crash, s.host.crash? r = some crash → ∀ n, crash n = none
  listing : s.listing = none
  resolved : ∃ code, Program.resolve code = .ok s.program ∧ ∀ i ∈ code, i.op ∈ Op.known
  low : 0 ≤ s.machine.next

theorem Observed.recording (hs : s.Observed r) : s.Recording [] r :=
  ⟨fun template args => by rw [hs.logger]; rfl, by rw [hs.logger]; rfl, hs.calm⟩

/-- While instructions are executed the lines stand behind a tab. -/
theorem recording_inner (hlogger : s.logger = .recorder r)
    (hcalm : ∀ crash, s.host.crash? r = some crash → ∀ n, crash n = none) :
    s.inner.Recording (bytes "\t") r := by
  have hinner : s.inner = { s with logger := .indented (bytes "\t") (.recorder r) } := by
    unfold inner
    rw [hlogger]
    exact if_pos rfl
  rw [hinner]
  exact ⟨fun template args => rfl, rfl, hcalm⟩

/-- The next instruction of a run. -/
theorem Observed.exists_fetch (hs : s.Observed r) (h : course c n s = .ok false s') :
    ∃ i, s.program.fetch? s'.machine.next = some i ∧ i.op ∈ Op.known := by
  obtain ⟨code, hp, hknown⟩ := hs.resolved
  have hrun := run_of_course_false h
  have hlt := next_lt_of_unfinished hrun
  have hpos : s.positionAt? c n = some s'.machine.next :=
    positionAt?_eq_some.mpr (by rw [hrun]; exact ⟨rfl, rfl⟩)
  obtain ⟨k, hk⟩ := Int.eq_ofNat_of_zero_le (position_nonneg hp hs.low n hpos)
  rw [hk, Program.size_of_resolve hp] at hlt
  have hi : code[k]? = some code[k] := List.getElem?_eq_getElem (by omega)
  refine ⟨code[k], ?_, hknown _ (List.getElem_mem _)⟩
  rw [hk, Program.fetch?_of_resolve hp, hi]

theorem Observed.start (hs : s.Observed r) :
    ∃ s₁, start s = .ok () s₁ ∧ Adds [startLine s.markWidth s.program.size] s s₁ := by
  obtain ⟨s₁, hlog, hadds⟩ := log_adds hs.recording (by simp) isMark_number
    (bytes "run " ++ Decimal.ofNat s.program.size ++ bytes " instructions")
  refine ⟨s₁, ?_, hadds⟩
  unfold Session.start
  rw [Act.get_bind, hs.listing]
  exact hlog

/-- One instruction of a run logs its lines. -/
theorem Observed.course_step (hs : s.Observed r) (h : course c n s = .ok false s')
    (hadds : Adds a s s') : ∃ i, s.program.fetch? s'.machine.next = some i ∧
      Plays (i.op = .print) (fun _ => True) (s.linesAt c n) s' (course c (n + 1) s) := by
  have hwithin := (course_within c n).ok h
  have hrun := run_of_course_false h
  have hlt := next_lt_of_unfinished hrun
  obtain ⟨i, hi, hknown⟩ := hs.exists_fetch h
  have hrecording : s'.inner.Recording (bytes "\t") r := by
    refine recording_inner (hwithin.logger.trans hs.logger) ?_
    rw [hadds.crashes]
    exact hs.calm
  have hnext : course c (n + 1) s = Session.indented (execute c 1 n) s' := by
    rw [course_succ, Act.bind_ok h]
    rfl
  rw [← hwithin.program] at hi hlt
  obtain ⟨taken, hplays⟩ := execute_one_plays hrecording (by simpa using hi) hknown
    (by simpa using hlt) c n
  obtain ⟨htraces, hmachine, hbreaks⟩ := hplays.indented (execute_within c 1 n)
  rw [← hnext] at htraces hmachine hbreaks
  have hlines : s.linesAt c n = taken.map (noteLine s'.inner.markWidth) := by
    rw [← hmachine, linesAt, hrun]
    dsimp only
    rw [run_machine, inner_machine, inner_program, inner_strict, inner_markWidth, hwithin.program,
      hwithin.strict, map_noteLine_congr hadds.width]
  rw [hlines]
  exact ⟨i, hwithin.program ▸ hi, htraces, trivial, hbreaks⟩

/-- A course that is at its end stays there, and no instruction follows. -/
theorem course_over {res : EStateM.Result Abort Session Bool} (h : course c n s = res)
    (hover : ∀ t, res ≠ .ok false t) : course c (n + 1) s = res ∧ s.linesAt c n = [] := by
  rw [course_succ]
  match res with
  | .ok false t => exact absurd rfl (hover t)
  | .ok true t =>
    refine ⟨Act.bind_ok h, ?_⟩
    rw [linesAt, run_of_course_true h]
    cases finish t <;> rfl
  | .error e t =>
    refine ⟨Act.bind_error h, ?_⟩
    rw [linesAt, run_of_course_error h]

/-- All lines of a run up to its end, by induction on the number of instructions. -/
theorem Observed.course_traces (hs : s.Observed r) (c : Context) (n : Nat) :
    Traces (startLine s.markWidth s.program.size :: (List.range n).flatMap (s.linesAt c)) s
      (course c n s) := by
  induction n with
  | zero =>
    obtain ⟨s₁, hstart, hadds⟩ := hs.start
    have hzero : Traces [] s₁ (Session.indented (execute c 0 0) s₁) := by
      rw [indented_eq (execute_within c 0 0)]
      exact Adds.of_inner (Adds.refl s₁.inner) s₁.logger
    have htraces := hadds.traces hzero
    rw [List.append_nil] at htraces
    rw [course, Act.bind_ok hstart]
    exact htraces
  | succ n ih =>
    rw [List.range_succ, List.flatMap_append, ← List.cons_append]
    match h : course c n s with
    | .ok false t =>
      rw [h] at ih
      obtain ⟨i, -, hplays⟩ := hs.course_step h ih
      simpa using Adds.traces ih hplays.traces
    | .ok true t =>
      obtain ⟨hsucc, hnone⟩ := course_over h (fun _ he => nomatch he)
      rw [h] at ih
      rw [hsucc]
      simpa [hnone] using ih
    | .error e t =>
      obtain ⟨hsucc, hnone⟩ := course_over h (fun _ he => nomatch he)
      rw [h] at ih
      rw [hsucc]
      simpa [hnone] using ih

/-- What breaks a run off without a halt is a crash of a write, in an instruction that prints. -/
theorem Observed.breaks (hs : s.Observed r) {e : Abort} (h : course c n s = .error e s') :
    HaltsWith e ∨ ∃ k < n, ∃ i t, s.run c k = (.unfinished, t) ∧
      (s.run c (k + 1)).1 ≠ .unfinished ∧ s.program.fetch? t.machine.next = some i ∧
      i.op = .print ∧ ∃ text h₁ h₂, s.outlet.writeText text h₁ = .error e h₂ := by
  induction n with
  | zero =>
    obtain ⟨s₁, hstart, -⟩ := hs.start
    rw [course, Act.bind_ok hstart, indented_eq (execute_within c 0 0)] at h
    cases h
  | succ n ih =>
    match hcourse : course c n s with
    | .ok false t =>
      have hadds := hs.course_traces c n
      rw [hcourse] at hadds
      have houtlet : t.outlet = s.outlet := by rw [(course_within c n).ok hcourse]
      obtain ⟨i, hi, hplays⟩ := hs.course_step hcourse hadds
      rcases hplays.breaks e s' h with hhalts | ⟨hprint, hcrash⟩
      · exact .inl hhalts
      · rw [houtlet] at hcrash
        refine .inr ⟨n, Nat.lt_succ_self n, i, t, run_of_course_false hcourse, ?_, hi, hprint, hcrash⟩
        rw [run_of_course_error h]
        exact fun he => nomatch he
    | .ok true t =>
      rw [(course_over hcourse fun _ he => nomatch he).1] at h
      cases h
    | .error e' t =>
      rw [(course_over hcourse fun _ he => nomatch he).1] at h
      cases h
      rcases ih hcourse with hhalts | ⟨k, hk, hrest⟩
      · exact .inl hhalts
      · exact .inr ⟨k, by omega, hrest⟩

/-! ## Ends of runs -/

/-- How the course of a run ends. -/
inductive Ending where
  /-- There are instructions left. -/
  | unfinished
  /-- There is no instruction left. -/
  | done
  | halted (e : Error)
  | broken (a : Abort)
  deriving DecidableEq, Repr

/-- How a computation up to the end of a run ends. -/
def endingOf : EStateM.Result Abort Session Bool → Ending
  | .ok false _ => .unfinished
  | .ok true _ => .done
  | .error (.crash (.error (.haltedBy e))) _ => .halted e
  | .error a _ => .broken a

/-- How a run ends, but for its last flush. -/
def ending (s : Session) (c : Context) (n : Nat) : Ending := endingOf (course c n s)

/-- The lines behind those of the instructions. -/
def Ending.lines (width : Nat) (stack : List Value) : Ending → List Bytes
  | .done => [doneLine width stack]
  | .halted e => [haltLine width e]
  | .unfinished | .broken _ => []

/-- What a run returns behind a flush, which may fail or crash. -/
def flushed (outlet : Outlet) (h : Host) : Option Error :=
  match outlet.flush h with
  | .ok error _ => error.bind Error.withoutHalt
  | .error a _ => some (a.toError name)

/-- What an ending says about a run: it is unfinished; or it came past its last instruction and
returns what the last flush says; or it returns the reason of the halt; or it returns what the crash
of a write is contained to, which came with a `print` as its last instruction. -/
def Ending.Fits (s : Session) (c : Context) (n : Nat) : Ending → Prop
  | .unfinished => (s.run c n).1 = .unfinished
  | .done => s.program.size ≤ (s.run c n).2.machine.next ∧
      ∃ h, (s.run c n).1 = .ended (flushed s.outlet h)
  | .halted e => (s.run c n).1 = .ended (some e)
  | .broken a => (s.run c n).1 = .ended (some (a.toError name)) ∧
      (a = .exit ∨ ∃ k < n, ∃ i t, s.run c k = (.unfinished, t) ∧
        (s.run c (k + 1)).1 ≠ .unfinished ∧ s.program.fetch? t.machine.next = some i ∧
        i.op = .print ∧ ∃ text h₁ h₂, s.outlet.writeText text h₁ = .error a h₂)

/-- All lines of a run. -/
def trace (s : Session) (c : Context) (n : Nat) : List Bytes :=
  startLine s.markWidth s.program.size :: (List.range n).flatMap (s.linesAt c) ++
    (s.ending c n).lines s.markWidth (s.run c n).2.machine.stack

theorem withoutHalt_of_foreign {a : Abort} (h : a.Foreign) :
    (a.toError name).withoutHalt = some (a.toError name) := by
  match a with
  | .crash (.error _) => obtain ⟨f, rfl⟩ := h; rfl
  | .crash (.text _) | .exit => rfl

/-- Behind the last instruction comes one line, and then nothing but the flush. -/
theorem finish_adds (hs : s.Recording [] r) :
    Adds [doneLine s.markWidth s.machine.stack] s (stateOf (finish s)) ∧
      ∃ h, (match finish s with
        | .ok error _ => error.bind Error.withoutHalt
        | .error a _ => (a.toError name).withoutHalt) = flushed s.outlet h := by
  obtain ⟨s₁, hlog, hadds⟩ := log_adds hs (by simp) isMark_number
    (bytes "done, stack:" ++ Note.showStack s.machine.stack)
  have hfinish : finish s = onHost s.outlet.flush s₁ := by
    unfold finish
    rw [Act.get_bind]
    exact Act.bind_ok hlog
  rw [showStack_eq] at hadds
  rw [hfinish]
  refine ⟨hadds.trans (onHost_adds (Outlet.flush_unlogged s.outlet) s₁), s₁.host, ?_⟩
  unfold onHost Act.zoom flushed
  cases hflush : s.outlet.flush s₁.host with
  | ok error h => rfl
  | error a h => exact withoutHalt_of_foreign (Outlet.flush_foreign s.outlet _ _ _ hflush)

/-- What comes through all instructions has come past the last one. -/
theorem not_lt_of_execute {fuel asked : Nat} (h : execute c fuel asked s = .ok true s') :
    ¬ s'.machine.next < s'.program.size := by
  induction fuel generalizing asked s with
  | zero =>
    by_cases hlt : s.machine.next < s.program.size
    · rw [execute_zero hlt] at h
      cases h
    · rw [execute_of_over hlt] at h
      cases h
      exact hlt
  | succ fuel ih =>
    rw [execute_succ] at h
    split at h
    · obtain ⟨_, s₁, -, hrest⟩ := Act.bind_eq_ok.mp h
      exact ih hrest
    · next hlt =>
      cases h
      exact hlt

theorem size_le_of_course (h : course c n s = .ok true s') :
    s.program.size ≤ s'.machine.next := by
  have hwithin := (course_within c n).ok h
  obtain ⟨_, s₁, -, hindented⟩ := Act.bind_eq_ok.mp h
  rw [indented_eq (execute_within c n 0)] at hindented
  rw [← hwithin.program]
  cases hexecute : execute c n 0 s₁.inner with
  | ok stopped t =>
    rw [hexecute] at hindented
    cases hindented
    have hnot := not_lt_of_execute hexecute
    exact Int.not_lt.mp hnot
  | error e t =>
    rw [hexecute] at hindented
    cases hindented

theorem lines_endingOf_error (width : Nat) (stack : List Value) (a : Abort) (t : Session) :
    (endingOf (.error a t)).lines width stack = closing width a := by
  unfold endingOf closing
  split
  · next he => cases he
  · next he => cases he
  · next he => cases he; rfl
  · next hne he =>
    cases he
    split
    · next e => exact absurd rfl (hne e)
    · rfl

theorem endingOf_of_foreign {a : Abort} (h : a.Foreign) (t : Session) :
    endingOf (.error a t) = .broken a := by
  match a with
  | .crash (.error _) => obtain ⟨f, rfl⟩ := h; rfl
  | .crash (.text _) | .exit => rfl

/-- **A run logs its trace**, and its ending is what the last line says. -/
theorem Observed.run (hs : s.Observed r) (c : Context) (n : Nat) :
    Adds (s.trace c n) s (s.run c n).2 ∧ (s.ending c n).Fits s c n := by
  have htraces := hs.course_traces c n
  unfold trace ending
  match h : course c n s with
  | .ok false t =>
    rw [h] at htraces
    rw [run_of_course_false h]
    refine ⟨?_, ?_⟩
    · show Adds (_ ++ []) s t
      rw [List.append_nil]
      exact htraces
    · show (s.run c n).1 = _
      rw [run_of_course_false h]
  | .ok true t =>
    rw [h] at htraces
    have hwithin := (course_within c n).ok h
    have hmachine := run_machine c n s
    obtain ⟨hdone, h₁, hflushed⟩ := finish_adds (hs.recording.within hwithin htraces)
    have hrun := run_of_course_true h
    have hsnd : (s.run c n).2 = stateOf (finish t) := by
      rw [hrun]
      cases finish t <;> rfl
    have hfst : (s.run c n).1 = .ended (flushed t.outlet h₁) := by
      rw [hrun, ← hflushed]
      cases finish t <;> rfl
    rw [h] at hmachine
    have hboth := htraces.trans hdone
    have hwidth : max t.markWidth 1 = max s.markWidth 1 := htraces.width
    rw [doneLine, traceLine_congr hwidth] at hboth
    refine ⟨?_, ?_, h₁, ?_⟩
    · rw [hmachine, hsnd]
      exact hboth
    · rw [hmachine]
      exact size_le_of_course h
    · rw [hfst, hwithin]
  | .error a t =>
    rw [h] at htraces
    rw [lines_endingOf_error, run_of_course_error h]
    refine ⟨htraces, ?_⟩
    rcases hs.breaks h with (⟨e, rfl⟩ | rfl) | hprint
    · show (s.run c n).1 = _
      rw [run_of_course_error h]
      rfl
    · refine ⟨?_, .inl rfl⟩
      rw [run_of_course_error h]
      rfl
    · obtain ⟨k, hk, i, t', hunfinished, hended, hi, hop, text, h₁, h₂, hwrite⟩ := hprint
      have hforeign := Outlet.writeText_foreign s.outlet text _ _ _ hwrite
      rw [endingOf_of_foreign hforeign]
      refine ⟨?_, .inr ⟨k, hk, i, t', hunfinished, hended, hi, hop, text, h₁, h₂, hwrite⟩⟩
      rw [run_of_course_error h, withoutHalt_of_foreign hforeign]

/-! ## Runs one after the other -/

/-- No run leaves the machine in front of the code. -/
theorem Observed.next_nonneg (hs : s.Observed r) (c : Context) (n : Nat) :
    0 ≤ (s.run c n).2.machine.next := by
  obtain ⟨code, hp, -⟩ := hs.resolved
  induction n with
  | zero =>
    rw [run_zero_machine]
    exact hs.low
  | succ n ih =>
    cases hfst : (s.run c n).1 with
    | unfinished =>
      have hpos := positionAt?_eq_some.mpr ⟨hfst, rfl⟩
      obtain ⟨-, op, -, hlands⟩ := run_lands hp hpos ih
      exact hlands.low
    | ended error =>
      rw [run_of_ended (run_eq_of_fst hfst) 1]
      exact ih

theorem Observed.after_run (hs : s.Observed r) (c : Context) (n : Nat) :
    (s.run c n).2.Observed r := by
  have hwithin := run_within c n s
  obtain ⟨hadds, -⟩ := hs.run c n
  refine ⟨hwithin.logger.trans hs.logger, ?_, ?_, ?_, hs.next_nonneg c n⟩
  · rw [hadds.crashes]; exact hs.calm
  · rw [hwithin]; exact hs.listing
  · rw [hwithin.program]; exact hs.resolved

/-- A program that was resolved from known operations, and a machine to start it with. -/
structure Loading where
  code : List Instruction
  program : Program
  machine : Machine
  resolved : Program.resolve code = .ok program
  known : ∀ i ∈ code, i.op ∈ Op.known
  low : 0 ≤ machine.next

/-- A run: what is loaded before it, if anything, how it is called off, and its fuel. -/
structure Task where
  loading : Option Loading
  context : Context
  fuel : Nat

namespace Task

/-- The session in front of a run. -/
def ready (t : Task) (s : Session) : Session :=
  match t.loading with
  | none => s
  | some l => { s with program := l.program, machine := l.machine }

/-- The session behind a run. -/
def perform (t : Task) (s : Session) : Session := ((t.ready s).run t.context t.fuel).2

end Task

/-- The session behind a sequence of runs. -/
def performAll (tasks : List Task) (s : Session) : Session := tasks.foldl (fun s t => t.perform s) s

theorem Observed.ready (hs : s.Observed r) (t : Task) : (t.ready s).Observed r := by
  unfold Task.ready
  cases t.loading with
  | none => exact hs
  | some l => exact ⟨hs.logger, hs.calm, hs.listing, ⟨l.code, l.resolved, l.known⟩, l.low⟩

theorem performAll_concat (before : List Task) (t : Task) (s : Session) :
    performAll (before ++ [t]) s = t.perform (performAll before s) := by simp [performAll]

theorem Task.ready_host (t : Task) (s : Session) : (t.ready s).host = s.host := by
  unfold ready
  cases t.loading <;> rfl

theorem Task.ready_markWidth (t : Task) (s : Session) : (t.ready s).markWidth = s.markWidth := by
  unfold ready
  cases t.loading <;> rfl

/-- What every run keeps, a sequence of runs keeps. -/
theorem Observed.performAll (hs : s.Observed r) (tasks : List Task) :
    (performAll tasks s).Observed r ∧ max (Session.performAll tasks s).markWidth 1 =
      max s.markWidth 1 := by
  induction tasks generalizing s with
  | nil => exact ⟨hs, rfl⟩
  | cons t tasks ih =>
    have hready := hs.ready t
    obtain ⟨hobserved, hwidth⟩ := ih (hready.after_run t.context t.fuel)
    obtain ⟨hadds, -⟩ := hready.run t.context t.fuel
    refine ⟨hobserved, hwidth.trans ?_⟩
    rw [hadds.width, t.ready_markWidth]

end Session

open Session in
/-- **The trace is a faithful record.** The lines of a session go to a recorder that never crashes,
and there is no listing. Whatever runs came before, and whatever sinks do in them, the next run logs
its trace and nothing else, which ends as the run does; the marks are one byte wide if they were so
at first, and before and behind the run the logger is the one from the beginning. -/
theorem run_logs_trace {s : Session} {r : Nat} (hs : s.Observed r) (before : List Task) (t : Task) :
    let u := t.ready (performAll before s)
    u.logger = s.logger ∧ (s.markWidth ≤ 1 → u.markWidth ≤ 1) ∧
      (u.run t.context t.fuel).2.host.lines = u.host.lines ++ u.trace t.context t.fuel ∧
      (u.ending t.context t.fuel).Fits u t.context t.fuel ∧
      (u.run t.context t.fuel).2.logger = s.logger := by
  intro u
  obtain ⟨hobserved, hwidth⟩ := hs.performAll before
  have hready : u.Observed r := hobserved.ready t
  obtain ⟨hadds, hfits⟩ := hready.run t.context t.fuel
  have hlogger : u.logger = s.logger := hready.logger.trans hs.logger.symm
  refine ⟨hlogger, fun hle => ?_, hadds.lines, hfits, ?_⟩
  · have hsame : u.markWidth = (performAll before s).markWidth := t.ready_markWidth _
    omega
  · rw [(run_within t.context t.fuel u).logger, hlogger]

/-- A session that records its lines, and whose output crashes. -/
def Session.recorded : Session where
  logger := .recorder 0
  outlet := [.direct 0]
  host :=
    { sinks := #[{ kind := .memory, policy := { write := fun _ _ => .crash (bytes "gone") } }]
      recorders := #[{}] }

theorem Session.observed_recorded : Session.recorded.Observed 0 := by
  refine ⟨rfl, fun crash h n => ?_, rfl, ⟨[], rfl, by simp⟩, by decide⟩
  cases h
  rfl

/-- The program of `1 print`. -/
def Session.Task.printOne : Session.Task where
  loading := some
    { code := [.push 1, { op := .print }]
      program := { code := #[.push 1, { op := .print }], targets := #[none, none] }
      machine := {}
      resolved := rfl
      known := by decide
      low := by decide }
  context := .never
  fuel := 3

/-- The program of `dup`, with nothing on the stack. -/
def Session.Task.dupNothing : Session.Task where
  loading := some
    { code := [{ op := .dup }]
      program := { code := #[{ op := .dup }], targets := #[none] }
      machine := {}
      resolved := rfl
      known := by decide
      low := by decide }
  context := .never
  fuel := 3

/-- The program of `if 8 end -9 up`, with a text above a number on the stack. -/
def Session.Task.skipEight : Session.Task where
  loading := some
    { code := [{ op := .ifTest }, .push 8, { op := .endMark }, .push (-9), .ofWord (bytes "up")]
      program :=
        { code := #[{ op := .ifTest }, .push 8, { op := .endMark }, .push (-9), .ofWord (bytes "up")]
          targets := #[some 2, none, none, none, none] }
      machine := { stack := [.text (bytes "no"), .int 7] }
      resolved := rfl
      known := by decide
      low := by decide }
  context := .never
  fuel := 6

open Session in
/-- A write breaks the first run off, the second one halts, and the third one meets an operand that is
no integer, jumps and comes to its end. -/
theorem run_logs_trace_threeRuns :
    (performAll [.printOne, .dupNothing, .skipEight] .recorded).host.lines =
      [bytes "# run 2 instructions",
        bytes "\t> exec @0 push(1) -- s:[]",
        bytes "\t> exec @1 print -- s:[1]",
        bytes "# run 1 instructions",
        bytes "\t> exec @0 dup -- s:[]",
        bytes "\t# halt error: stack underflow in dup",
        bytes "# run 5 instructions",
        bytes "\t> exec @0 if -- s:[7 no]",
        bytes "\t! type mismatch in if: \"no\"",
        bytes "\t^ jump @0 -> @2",
        bytes "\t> exec @2 end -- s:[7]",
        bytes "\t> exec @3 push(-9) -- s:[7]",
        bytes "\t> exec @4 word(\"up\") -- s:[7 -9]",
        bytes "# done, stack:[7 -9]"] := by
  have hlines (before : List Task) (t : Task) :
      (performAll (before ++ [t]) .recorded).host.lines =
        (performAll before .recorded).host.lines ++
          (t.ready (performAll before .recorded)).trace t.context t.fuel := by
    have hrun := (run_logs_trace observed_recorded before t).2.2.1
    rw [Task.ready_host] at hrun
    rw [performAll_concat]
    exact hrun
  have hfirst := hlines [] .printOne
  have hsecond := hlines [.printOne] .dupNothing
  have hthird := hlines [.printOne, .dupNothing] .skipEight
  have htrace₁ : (Task.printOne.ready (performAll [] .recorded)).trace Task.printOne.context
      Task.printOne.fuel =
      [bytes "# run 2 instructions", bytes "\t> exec @0 push(1) -- s:[]",
        bytes "\t> exec @1 print -- s:[1]"] := by decide +kernel
  have htrace₂ : (Task.dupNothing.ready (performAll [.printOne] .recorded)).trace
      Task.dupNothing.context Task.dupNothing.fuel =
      [bytes "# run 1 instructions", bytes "\t> exec @0 dup -- s:[]",
        bytes "\t# halt error: stack underflow in dup"] := by decide +kernel
  have htrace₃ : (Task.skipEight.ready (performAll [.printOne, .dupNothing] .recorded)).trace
      Task.skipEight.context Task.skipEight.fuel =
      [bytes "# run 5 instructions", bytes "\t> exec @0 if -- s:[7 no]",
        bytes "\t! type mismatch in if: \"no\"", bytes "\t^ jump @0 -> @2",
        bytes "\t> exec @2 end -- s:[7]", bytes "\t> exec @3 push(-9) -- s:[7]",
        bytes "\t> exec @4 word(\"up\") -- s:[7 -9]", bytes "# done, stack:[7 -9]"] := by
    decide +kernel
  rw [List.nil_append, htrace₁] at hfirst
  rw [List.singleton_append, htrace₂] at hsecond
  rw [List.cons_append, List.singleton_append, htrace₃] at hthird
  rw [hthird, hsecond, hfirst]
  rfl

end WordStack
