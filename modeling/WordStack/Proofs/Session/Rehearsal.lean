import WordStack.Proofs.Session.Acceptance
import WordStack.Proofs.Session.Trace

/-!
# Rehearsing a run

What a run does to its surroundings, up to its last flush, follows from the machine alone: which
lines it logs and which texts it writes. So it can be rehearsed without the machine. Surroundings
that bear the rehearsal bear the run: only what stops it is left, and that is a halt or a fault of
the machine itself. A halt flushes the outlet and logs a line; whatever these come to, it crashes
with its reason.

* `Script.effects`, `Execution.effects`: what instructions do to the surroundings, in order.
* `Session.carryOut`: doing that without a machine. `Session.play_of_carryOut`,
  `Session.execute_of_carryOut`: the end of an instruction, and of an execution, is left.
* `Session.NeverExits`: flushes and lines may fail or crash. `Session.NeverExits.halt`: a halt does
  not mind.
* `Session.rehearse`: all that a run does to its surroundings before its last flush.
* `Session.run_of_rehearse`: the run behind a rehearsal.
-/
namespace WordStack

open Act (stateOf)

/-- What an instruction does to the surroundings. -/
inductive Effect where
  | note (n : Note)
  | write (text : Bytes)
  deriving DecidableEq, Repr

/-- The effects of a script without what ends it. -/
def Script.effects : Script → List Effect
  | .done _ | .halt _ _ | .fault _ _ => []
  | .note n _ rest => .note n :: rest.effects
  | .write text _ rest => .write text :: rest.effects

namespace Execution

/-- The effects of the next `n` instructions, if there are so many. -/
def effects (p : Program) (strict : Bool) (context : Context) :
    (asked n : Nat) → Execution → List Effect
  | _, 0, _ => []
  | asked, n + 1, x =>
    if x.isOver p then []
    else (x.machine.step p strict).effects ++
      effects p strict context (asked + 1) n (x.advance p strict (context asked))

section
variable {p : Program} {strict : Bool} {context : Context} {asked : Nat} {x : Execution}

theorem effects_of_isOver (h : x.isOver p = true) (n : Nat) :
    x.effects p strict context asked n = [] := by
  cases n with
  | zero => rfl
  | succ n => rw [effects, if_pos h]

/-- The effects of instructions in parts. -/
theorem effects_add (m n : Nat) : x.effects p strict context asked (m + n) =
    x.effects p strict context asked m ++
      (x.after p strict context asked m).effects p strict context (asked + m) n := by
  induction m generalizing asked x with
  | zero => simp [effects]
  | succ m ih =>
    rw [show m + 1 + n = m + n + 1 by omega]
    cases hover : x.isOver p with
    | true => rw [after_of_isOver hover, effects_of_isOver hover, effects_of_isOver hover,
        effects_of_isOver hover, List.append_nil]
    | false =>
      rw [effects, effects, hover, if_neg Bool.false_ne_true, if_neg Bool.false_ne_true, ih,
        after_succ, List.append_assoc, show asked + 1 + m = asked + (m + 1) by omega]

end

end Execution

namespace Session

variable {s s' : Session} {c : Context} {n : Nat}

/-! ## Effects without a machine -/

/-- Carry out an effect. -/
def act : Effect → M Unit
  | .note n => note n
  | .write text => writeText text

/-- Carry out effects in order. -/
def carryOut : List Effect → M Unit
  | [] => pure ()
  | e :: rest => do act e; carryOut rest

/-- Where the computation returns, it does so with any machine, and leaves that machine alone. -/
def Blind (act : M Unit) : Prop := ∀ s s' m, act s = .ok () s' →
  act { s with machine := m } = .ok () { s' with machine := m }

theorem log_blind (mark text : Bytes) : Blind (log mark text) := by
  intro s s' m h
  rcases log_eq_ok.mp h with ⟨hl, host, hsend, rfl⟩ | ⟨hl, rfl⟩
  · exact log_eq_ok.mpr (.inl ⟨hl, host, hsend, rfl⟩)
  · exact log_eq_ok.mpr (.inr ⟨hl, rfl⟩)

/-- A note is a log line. -/
theorem note_eq_log (n : Note) (s : Session) : note n s = log n.mark n.render s := by
  unfold note
  rw [Act.get_bind]
  split
  · rfl
  · next hl => rw [log_eq, if_neg hl]; rfl

theorem note_blind (n : Note) : Blind (note n) := by
  intro s s' m h
  rw [note_eq_log] at h ⊢
  exact log_blind _ _ s s' m h

theorem writeText_blind (text : Bytes) : Blind (writeText text) := by
  intro s s' m h
  obtain ⟨r, host, hwrite, herror, rfl⟩ := writeText_eq_ok.mp h
  exact writeText_eq_ok.mpr ⟨r, host, hwrite, herror, rfl⟩

theorem act_blind (e : Effect) : Blind (act e) := by
  cases e with
  | note n => exact note_blind n
  | write text => exact writeText_blind text

theorem act_beside (e : Effect) : Act.Relates Beside (act e) := by
  cases e with
  | note n => exact note_beside n
  | write text => exact writeText_beside text

theorem carryOut_beside (es : List Effect) : Act.Relates Beside (carryOut es) := by
  induction es with
  | nil => exact fun _ => rfl
  | cons e rest ih => exact (act_beside e).bind fun _ => ih

/-- Effects that were carried out left what has failed as it was. -/
theorem sticks_of_carryOut {es : List Effect} (h : carryOut es s = .ok () s') :
    s.host.Sticks s'.host := by
  induction es generalizing s with
  | nil => cases h; exact Host.Sticks.refl _
  | cons e rest ih =>
    obtain ⟨_, s₁, hact, hrest⟩ := Act.bind_eq_ok.mp h
    have hfirst : s.host.Sticks s₁.host := by
      cases e with
      | note n => exact (yields_of_log ((note_eq_log n s).symm.trans hact)).1.sticks
      | write text => exact (yields_of_writeText hact).1.sticks
    exact hfirst.trans (ih hrest)

theorem carryOut_append {a b : List Effect} : carryOut (a ++ b) s = .ok () s' ↔
    ∃ s₁, carryOut a s = .ok () s₁ ∧ carryOut b s₁ = .ok () s' := by
  induction a generalizing s with
  | nil => exact ⟨fun h => ⟨s, rfl, h⟩, fun ⟨_, h, hb⟩ => by cases h; exact hb⟩
  | cons e rest ih =>
    constructor
    · intro h
      obtain ⟨_, s₁, hact, hrest⟩ := Act.bind_eq_ok.mp h
      obtain ⟨s₂, hcarry, hb⟩ := ih.mp hrest
      exact ⟨s₂, (Act.bind_ok hact).trans hcarry, hb⟩
    · intro ⟨s₂, h, hb⟩
      obtain ⟨_, s₁, hact, hrest⟩ := Act.bind_eq_ok.mp h
      exact (Act.bind_ok hact).trans (ih.mpr ⟨s₂, hrest, hb⟩)

/-! ## Instructions -/

/-- End as an execution does that was stopped so. -/
def endWith : Option Stop → M Unit
  | none => pure ()
  | some (.halt e) => halt (some e)
  | some (.fault f) => Act.fault f

/-- What was stopped does not return. -/
theorem endWith_error (stop : Stop) (s : Session) :
    ∃ a s', endWith (some stop) s = .error a s' := by
  cases stop with
  | fault f => exact ⟨_, _, rfl⟩
  | halt e =>
    cases h : (halt (some e) : M Unit) s with
    | ok _ s' => exact absurd h (halt_ne_ok _ _)
    | error a s' => exact ⟨a, s', h⟩

/-- What the context says counts if the instruction was not stopped. -/
theorem endWith_haltIf (stop : Option Stop) (answer : Option Error) (s : Session) :
    (endWith stop >>= fun _ => haltIf answer) s = endWith (stop <|> answer.map .halt) s := by
  cases stop with
  | none => cases answer <;> rfl
  | some stop =>
    obtain ⟨a, s', h⟩ := endWith_error stop s
    rw [Act.bind_error h]
    exact h.symm

/-- Surroundings that bear the effects of a script leave its end, by induction on the script. -/
theorem play_of_carryOut {script : Script} (h : carryOut script.effects s = .ok () s')
    (out : Bytes) (m : Machine) : play script { s with machine := m } =
      endWith (script.play out).stop { s' with machine := (script.play out).machine } := by
  induction script generalizing s out m with
  | done m' | halt reason m' | fault f m' => cases h; rfl
  | note n m' rest ih =>
    obtain ⟨_, s₁, hact, hrest⟩ := Act.bind_eq_ok.mp h
    have hnote := act_blind (.note n) s s₁ m' hact
    have hplay : play (.note n m' rest) { s with machine := m } =
        play rest { s₁ with machine := m' } := Act.bind_ok (k := fun _ => play rest) hnote
    rw [hplay]
    exact ih hrest out m'
  | write text m' rest ih =>
    obtain ⟨_, s₁, hact, hrest⟩ := Act.bind_eq_ok.mp h
    have hwrite := act_blind (.write text) s s₁ m' hact
    have hplay : play (.write text m' rest) { s with machine := m } =
        play rest { s₁ with machine := m' } := Act.bind_ok (k := fun _ => play rest) hwrite
    rw [hplay]
    exact ih hrest (out ++ text) m'

/-- One instruction, and what the context says to it. -/
theorem step_of_carryOut {x : Execution} (hover : x.isOver s.program = false)
    (h : carryOut (x.machine.step s.program s.strict).effects s = .ok () s')
    (answer : Option Error) :
    (do step; haltIf answer : M Unit) { s with machine := x.machine } =
      endWith (x.advance s.program s.strict answer).stop
        { s' with machine := (x.advance s.program s.strict answer).machine } := by
  have hstep : step { s with machine := x.machine } =
      endWith ((x.machine.step s.program s.strict).play x.written).stop
        { s' with machine := ((x.machine.step s.program s.strict).play x.written).machine } :=
    play_of_carryOut h x.written x.machine
  simp only [Execution.advance, hover, Bool.false_eq_true, if_false]
  rw [← endWith_haltIf]
  exact Act.bind_congr hstep

/-- Surroundings that bear the effects of an execution leave its end, by induction on the fuel. -/
theorem execute_of_carryOut {x : Execution} {fuel asked : Nat} (hstop : x.stop = none)
    (h : carryOut (x.effects s.program s.strict c asked fuel) s = .ok () s') :
    execute c fuel asked { s with machine := x.machine } =
      (endWith (x.after s.program s.strict c asked fuel).stop >>= fun _ =>
        pure (!decide ((x.after s.program s.strict c asked fuel).machine.next < s.program.size)))
      { s' with machine := (x.after s.program s.strict c asked fuel).machine } := by
  induction fuel generalizing x s asked with
  | zero =>
    cases h
    rw [Execution.after_zero, hstop]
    rfl
  | succ fuel ih =>
    rw [execute_succ]
    by_cases hlt : x.machine.next < s.program.size
    · have hover : x.isOver s.program = false := Execution.isOver_eq_false.mpr ⟨hstop, hlt⟩
      rw [Execution.effects, hover, if_neg Bool.false_ne_true] at h
      obtain ⟨s₁, hfirst, hrest⟩ := carryOut_append.mp h
      have hstep := step_of_carryOut hover hfirst (c asked)
      have hbeside := (carryOut_beside _).ok hfirst
      have hprogram : s₁.program = s.program := hbeside.within.program
      have hstrict : s₁.strict = s.strict := hbeside.within.strict
      rw [if_pos hlt, Execution.after_succ, Act.bind_congr hstep]
      cases hy : (x.advance s.program s.strict (c asked)).stop with
      | none =>
        rw [← hprogram, ← hstrict] at hrest hy ⊢
        exact ih hy hrest
      | some stop =>
        have hover' : (x.advance s.program s.strict (c asked)).isOver s.program = true := by
          simp [Execution.isOver, hy]
        rw [Execution.effects_of_isOver hover'] at hrest
        cases hrest
        rw [Execution.after_of_isOver hover', hy]
        obtain ⟨a, t, herror⟩ := endWith_error stop
          { s' with machine := (x.advance s.program s.strict (c asked)).machine }
        rw [Act.bind_error herror, Act.bind_error herror]
    · have hover : x.isOver s.program = true := by simp [Execution.isOver, hlt]
      rw [Execution.effects_of_isOver hover] at h
      cases h
      rw [if_neg hlt, Execution.after_of_isOver hover, hstop]
      simp [endWith, hlt]

theorem endWith_beside (stop : Option Stop) : Act.Relates Beside (endWith stop) := by
  cases stop with
  | none => exact fun _ => rfl
  | some stop =>
    cases stop with
    | halt e => exact halt_beside (some e)
    | fault f => exact fun _ => rfl

/-! ## Halts -/

/-- Neither a flush of the outlet nor a log line behind it ends everything, whatever else they do. -/
structure NeverExits (s : Session) : Prop where
  flush : ∀ h, s.outlet.flush s.host ≠ .error .exit h
  line : ∀ template args h,
    s.logger.send template args (stateOf (s.outlet.flush s.host)) ≠ .error .exit h

theorem NeverExits.setMachine (hs : s.NeverExits) (m : Machine) :
    NeverExits { s with machine := m } := ⟨hs.flush, hs.line⟩

theorem NeverExits.inner (hs : s.NeverExits) : s.inner.NeverExits := by
  unfold Session.inner
  split
  · exact ⟨hs.flush, fun template args => hs.line (bytes "\t" ++ template) args⟩
  · exact hs

/-- What aborts a log line aborts the logger. -/
theorem send_of_log_error {mark text : Bytes} {a : Abort} (h : log mark text s = .error a s') :
    ∃ template args h', s.logger.send template args s.host = .error a h' := by
  rw [log_eq] at h
  split at h
  · obtain ⟨host, hsend, -⟩ := onHost_eq_error h
    exact ⟨_, _, host, hsend⟩
  · cases h

/-- A flush in front of a halt leaves the reason as it is, even if it crashes. -/
theorem NeverExits.settle (hs : s.NeverExits) (e : Error) :
    settle (some e) s = .ok (some e) { s with host := stateOf (s.outlet.flush s.host) } := by
  unfold Session.settle
  split
  · next hnil =>
    have hfault : s.outlet.flush s.host = .error (.crash (.error (.fault .absentTarget))) s.host := by
      rw [hnil]; rfl
    rw [hfault]; rfl
  · cases hflush : s.outlet.flush s.host with
    | ok error h => simp only [onHost, Act.zoom, hflush]; rfl
    | error a h =>
      cases a with
      | crash value => simp only [onHost, Act.zoom, hflush]; rfl
      | exit => exact absurd hflush (hs.flush h)

/-- A halt crashes with its reason, whatever the flush and the log line in it do. -/
theorem NeverExits.halt (hs : s.NeverExits) (e : Error) :
    ∃ s', (Session.halt (some e) : M Unit) s = .error (abortOf (.halt e)) s' := by
  unfold Session.halt
  rw [Act.bind_ok (hs.settle e)]
  dsimp only
  cases hline : Act.shield (log (bytes "#") (bytes "halt error: " ++ e.message))
      { s with host := stateOf (s.outlet.flush s.host) } with
  | ok _ s' => exact ⟨s', Act.bind_ok hline⟩
  | error a s' =>
    obtain ⟨-, hlog⟩ := shield_eq_error hline
    obtain ⟨template, args, h, hsend⟩ := send_of_log_error hlog
    exact absurd hsend (hs.line template args h)

/-- However an execution was stopped, the session is stopped so. -/
theorem NeverExits.endWith (hs : s.NeverExits) (stop : Stop) :
    ∃ s', Session.endWith (some stop) s = .error (abortOf stop) s' := by
  cases stop with
  | halt e => exact hs.halt e
  | fault f => exact ⟨s, rfl⟩

/-! ## Rehearsals -/

/-- The effects of the next `n` instructions of a run, if it has so many. -/
def effects (s : Session) (c : Context) (n : Nat) : List Effect :=
  Execution.effects s.program s.strict c 0 n { machine := s.machine }

theorem execute_of_effects (h : carryOut (s.effects c n) s = .ok () s') : execute c n 0 s =
    (endWith (s.execution c 0 n).stop >>= fun _ =>
      pure (!decide ((s.execution c 0 n).machine.next < s.program.size)))
    { s' with machine := (s.execution c 0 n).machine } :=
  execute_of_carryOut (x := { machine := s.machine }) rfl h

/-- The line behind the last instruction of a run, if there is none left. -/
def logEnd (p : Program) (x : Execution) : M Unit :=
  if outcomeOf p x = .ended none then
    log (bytes "#") (bytes "done, stack:" ++ Note.showStack x.machine.stack)
  else pure ()

/-- All that a run does to its surroundings before its last flush: the listing and the line in front,
the effects of instructions, and, if no instruction is left, the line behind them. -/
def rehearse (c : Context) (n : Nat) : M Unit := do
  let s ← get
  start
  indented (carryOut (s.effects c n))
  logEnd s.program (s.execution c 0 n)

theorem rehearse_eq_ok : rehearse c n s = .ok () s' ↔ ∃ s₁ s₂, start s = .ok () s₁ ∧
    indented (carryOut (s.effects c n)) s₁ = .ok () s₂ ∧
    logEnd s.program (s.execution c 0 n) s₂ = .ok () s' := by
  unfold rehearse
  rw [Act.get_bind, Act.bind_eq_ok]
  constructor
  · intro ⟨_, s₁, hstart, hrest⟩
    obtain ⟨_, s₂, hindented, hlog⟩ := Act.bind_eq_ok.mp hrest
    exact ⟨s₁, s₂, hstart, hindented, hlog⟩
  · intro ⟨s₁, s₂, hstart, hindented, hlog⟩
    exact ⟨(), s₁, hstart, (Act.bind_ok hindented).trans hlog⟩

theorem indented_carryOut_eq_ok {es : List Effect} : indented (carryOut es) s = .ok () s' ↔
    ∃ t, carryOut es s.inner = .ok () t ∧ s' = { t with logger := s.logger } := by
  rw [indented_eq fun t => (carryOut_beside es t).within]
  constructor
  · intro h
    cases hcarry : carryOut es s.inner with
    | ok _ t => rw [hcarry] at h; cases h; exact ⟨t, rfl, rfl⟩
    | error e t => rw [hcarry] at h; cases h
  · intro ⟨t, hcarry, hs⟩
    rw [hcarry, hs]
    rfl

theorem logEnd_beside (p : Program) (x : Execution) : Act.Relates Beside (logEnd p x) := by
  unfold logEnd
  split
  · exact log_beside _ _
  · exact fun _ => rfl

theorem rehearse_within (c : Context) (n : Nat) : Act.Relates Within (rehearse c n) := by
  intro s
  have hstart : Act.Relates Within start := fun s => (start_beside s).within
  have hindented : Act.Relates Within (indented (carryOut (s.effects c n))) :=
    indented_within fun t => (carryOut_beside _ t).within
  have hend : Act.Relates Within (logEnd s.program (s.execution c 0 n)) :=
    fun t => (logEnd_beside _ _ t).within
  exact hstart.bind (fun _ => hindented.bind fun _ => hend) s

theorem sticks_of_logEnd {p : Program} {x : Execution} (h : logEnd p x s = .ok () s') :
    s.host.Sticks s'.host := by
  unfold logEnd at h
  split at h
  · exact (yields_of_log h).1.sticks
  · cases h; exact Host.Sticks.refl _

theorem sticks_of_rehearse (h : rehearse c n s = .ok () s') : s.host.Sticks s'.host := by
  obtain ⟨s₁, s₂, hstart, hindented, hlog⟩ := rehearse_eq_ok.mp h
  obtain ⟨t, hcarry, rfl⟩ := indented_carryOut_eq_ok.mp hindented
  have hinner : s₁.inner.host = s₁.host := by rw [inner_eq]
  have hmiddle : s₁.host.Sticks t.host := hinner ▸ sticks_of_carryOut hcarry
  have hlast := sticks_of_logEnd hlog
  exact ((yields_of_start hstart).1.sticks.trans hmiddle).trans hlast

/-- The beginning of a run whose whole can be rehearsed can be rehearsed; so if it is over then,
the rehearsals are the same. -/
theorem rehearse_of_le (h : rehearse c n s = .ok () s') {k : Nat} (hk : k ≤ n) :
    ∃ t, rehearse c k s = .ok () t ∧
      ((s.execution c 0 k).isOver s.program = true → t = s') := by
  obtain ⟨d, rfl⟩ := Nat.exists_eq_add_of_le hk
  cases hover : (s.execution c 0 k).isOver s.program with
  | true =>
    have heffects : s.effects c (k + d) = s.effects c k := by
      rw [effects, effects, Execution.effects_add]
      rw [execution] at hover
      rw [Execution.effects_of_isOver hover, List.append_nil]
    have hexecution : s.execution c 0 (k + d) = s.execution c 0 k :=
      Execution.after_eq_of_isOver hover hk
    refine ⟨s', ?_, fun _ => rfl⟩
    rw [rehearse_eq_ok] at h ⊢
    rwa [heffects, hexecution] at h
  | false =>
    obtain ⟨s₁, s₂, hstart, hindented, -⟩ := rehearse_eq_ok.mp h
    obtain ⟨t₂, hcarry, -⟩ := indented_carryOut_eq_ok.mp hindented
    rw [effects, Execution.effects_add] at hcarry
    obtain ⟨t₁, hfirst, -⟩ := carryOut_append.mp hcarry
    have hnone : outcomeOf s.program (s.execution c 0 k) ≠ .ended none := by
      intro hend
      rw [isOver_of_outcomeOf hend] at hover
      cases hover
    have hend : logEnd s.program (s.execution c 0 k) { t₁ with logger := s₁.logger } =
        .ok () { t₁ with logger := s₁.logger } := by
      rw [logEnd, if_neg hnone]
      rfl
    refine ⟨_, rehearse_eq_ok.mpr ⟨s₁, _, hstart,
      indented_carryOut_eq_ok.mpr ⟨t₁, hfirst, rfl⟩, hend⟩, ?_⟩
    intro htrue
    cases htrue

/-! ## Runs -/

/-- The instructions of a run behind their rehearsal: only what stops them is left. -/
theorem course_of_rehearse {s₁ s₂ : Session} (hstart : start s = .ok () s₁)
    (hindented : indented (carryOut (s.effects c n)) s₁ = .ok () s₂)
    (hexit : (s.execution c 0 n).stop ≠ none → s₂.NeverExits) : ∃ t,
    course c n s = resultOf (s.execution c 0 n)
      (!decide ((s.execution c 0 n).machine.next < s.program.size)) t ∧
    t.machine = (s.execution c 0 n).machine ∧
    ((s.execution c 0 n).stop = none → t = { s₂ with machine := (s.execution c 0 n).machine }) := by
  obtain ⟨t₂, hcarry, rfl⟩ := indented_carryOut_eq_ok.mp hindented
  have hbefore := start_beside.ok hstart
  have hsame : s₁.inner.effects c n = s.effects c n ∧
      s₁.inner.execution c 0 n = s.execution c 0 n := by
    rw [effects, effects, execution, execution, inner_program, inner_strict, inner_machine,
      hbefore.within.program, hbefore.within.strict, hbefore.machine]
    exact ⟨rfl, rfl⟩
  rw [← hsame.1] at hcarry
  have hexecute := execute_of_effects hcarry
  rw [hsame.2, inner_program, hbefore.within.program] at hexecute
  have hcourse : course c n s = relog s₁.logger (execute c n 0 s₁.inner) := by
    unfold course
    rw [Act.bind_ok hstart, indented_eq (execute_within c n 0)]
  rw [hexecute] at hcourse
  rw [hcourse]
  cases hstop : (s.execution c 0 n).stop with
  | none => exact ⟨_, (resultOf_of_none hstop _ _).symm, rfl, fun _ => rfl⟩
  | some stop =>
    have hinner := (hexit (by rw [hstop]; simp)).inner
    rw [inner_of_logger ((carryOut_beside _).ok hcarry).within.logger] at hinner
    obtain ⟨u, hend⟩ := (hinner.setMachine (s.execution c 0 n).machine).endWith stop
    have hbeside := (endWith_beside (some stop)).error hend
    rw [Act.bind_error hend]
    refine ⟨{ u with logger := s₁.logger }, (resultOf_of_some hstop _ _).symm, hbeside.machine, ?_⟩
    intro hnone
    cases hnone

/-- A run that came past its last instruction and logged the line behind it returns what the flush
says, also if that crashes. -/
theorem run_of_log {t : Session} (h : course c n s = .ok true t)
    (hlog : log (bytes "#") (bytes "done, stack:" ++ Note.showStack t.machine.stack) t = .ok () s') :
    (s.run c n).1 = .ended (flushed t.outlet s'.host) ∧
      (s.run c n).2 = { s' with host := stateOf (t.outlet.flush s'.host) } := by
  have hfinish : finish t = onHost t.outlet.flush s' := by
    unfold finish
    rw [Act.get_bind]
    exact Act.bind_ok hlog
  rw [run_of_course_true h, hfinish]
  cases hflush : t.outlet.flush s'.host with
  | ok e h =>
    simp only [onHost, Act.zoom, flushed, hflush]
    exact ⟨trivial, rfl⟩
  | error a h =>
    have hforeign := Outlet.flush_foreign t.outlet _ _ _ hflush
    simp only [onHost, Act.zoom, flushed, hflush, withoutHalt_of_foreign hforeign]
    exact ⟨trivial, rfl⟩

/-- A run that can be rehearsed has the machine of its execution and ends as that does. If no
instruction is left, the last flush is, and its error counts, or its crash. -/
theorem run_of_rehearse (h : rehearse c n s = .ok () s')
    (hexit : (s.execution c 0 n).isOver s.program = true → s'.NeverExits) :
    (s.run c n).2.machine = (s.execution c 0 n).machine ∧
    (outcomeOf s.program (s.execution c 0 n) ≠ .ended none →
      (s.run c n).1 = outcomeOf s.program (s.execution c 0 n)) ∧
    (outcomeOf s.program (s.execution c 0 n) = .ended none →
      (s.run c n).1 = .ended (flushed s.outlet s'.host) ∧
      (s.run c n).2.host = stateOf (s.outlet.flush s'.host)) := by
  obtain ⟨s₁, s₂, hstart, hindented, hlog⟩ := rehearse_eq_ok.mp h
  have hlate : (s.execution c 0 n).stop ≠ none → s₂.NeverExits := by
    intro hstop
    have hover : (s.execution c 0 n).isOver s.program = true := by
      simp [Execution.isOver, Option.isSome_iff_ne_none.mpr hstop]
    have hnone : outcomeOf s.program (s.execution c 0 n) ≠ .ended none := by
      intro hend
      unfold outcomeOf at hend
      split at hend
      · next hnone => exact absurd hnone hstop
      · cases hend
      · cases hend
    rw [logEnd, if_neg hnone] at hlog
    cases hlog
    exact hexit hover
  obtain ⟨t, hcourse, hmachine, hrest⟩ := course_of_rehearse hstart hindented hlate
  cases hstop : (s.execution c 0 n).stop with
  | some stop =>
    rw [resultOf_of_some hstop] at hcourse
    rw [run_of_course_error hcourse]
    refine ⟨hmachine, fun _ => ?_, fun hnone => ?_⟩
    · cases stop <;> simp [outcomeOf, hstop, abortOf, Abort.toError, Error.withoutHalt, Error.haltReason?]
    · cases stop <;> simp [outcomeOf, hstop] at hnone
  | none =>
    rw [resultOf_of_none hstop] at hcourse
    by_cases hlt : (s.execution c 0 n).machine.next < s.program.size
    · have hcourse' : course c n s = .ok false t := by rw [hcourse]; simp [hlt]
      rw [run_of_course_false hcourse']
      refine ⟨hmachine, fun _ => by simp [outcomeOf, hstop, hlt], fun hnone => ?_⟩
      simp [outcomeOf, hstop, hlt] at hnone
    · have hcourse' : course c n s = .ok true t := by rw [hcourse]; simp [hlt]
      have hend : outcomeOf s.program (s.execution c 0 n) = .ended none := by
        simp [outcomeOf, hstop, hlt]
      rw [logEnd, if_pos hend] at hlog
      obtain rfl := hrest hstop
      have houtlet : s₂.outlet = s.outlet := by
        obtain ⟨t₂, hcarry, rfl⟩ := indented_carryOut_eq_ok.mp hindented
        show t₂.outlet = s.outlet
        rw [(carryOut_beside _).ok hcarry, inner_outlet, start_beside.ok hstart]
      have hlast := log_blind _ _ _ _ (s.execution c 0 n).machine hlog
      obtain ⟨hfst, hsnd⟩ := run_of_log hcourse' hlast
      rw [houtlet] at hfst hsnd
      rw [hfst, hsnd]
      exact ⟨rfl, fun hnone => absurd hend hnone, fun _ => ⟨rfl, rfl⟩⟩

end Session

end WordStack
