import WordStack.Proofs.Host.Reliable
import WordStack.Proofs.Machine.Execution

/-!
# Sessions with reliable surroundings

A session is steady if it has an outlet, all writers of that are reliable, and its logger, if it has
one, never crashes. A run of a steady session is its machine at work by itself.

* `Host.logs_of_send`: where a log line can go.
* `Session.Tells`: a session gave its outlet a text; all but the machine, the width of marks and the
  host is as before.
* `Session.Shows`: a session has come to the machine of an `Execution`, and gave its outlet the text.
* `Session.Bears`: what the surroundings do to notes, writes and halts, be they reliable or not.
  `play_reaches`, `step_reaches` and `execute_reaches`: then an instruction, and a whole execution,
  give the session the machine of the `Execution`, its text and its way of ending, or break off.
* `run_of_steady`: what a run comes to, by what `Execution.after` comes to.
-/
namespace WordStack

/-! ## Loggers -/

namespace Logger

/-- The sink that log lines go to. -/
def sink? (h : Host) : Logger → Option Nat
  | absent | recorder _ => none
  | journal _ => h.journal.output
  | indented _ inner => inner.sink? h

/-- Every line can be sent. -/
def Quiet (h : Host) : Logger → Prop
  | absent => False
  | recorder r => ∀ crash, h.crash? r = some crash → ∀ calls, crash calls = none
  | journal _ => ∀ i, h.journal.output = some i → h.Calm i
  | indented _ inner => inner.Quiet h

end Logger

namespace Host

variable {h h' : Host}

theorem Keeps.quiet (k : h.Keeps h') {l : Logger} (hl : l.Quiet h) : l.Quiet h' := by
  induction l with
  | absent => exact hl
  | recorder r => simpa only [Logger.Quiet, k.crashes] using hl
  | journal level => simpa only [Logger.Quiet, k.output, Calm, k.policies] using hl
  | indented text inner ih => exact ih hl

theorem Keeps.logger_sink? (k : h.Keeps h') (l : Logger) : l.sink? h' = l.sink? h := by
  induction l with
  | journal level => exact k.output
  | indented text inner ih => exact ih
  | _ => rfl

/-- A log line went to the sink `i`, if any. -/
structure Logs (i : Option Nat) (h h' : Host) : Prop where
  keeps : h.Keeps h'
  buffers : h'.buffers = h.buffers
  received : ∀ j, i ≠ some j → h'.received j = h.received j

theorem Logs.trans {h'' : Host} {i : Option Nat} (a : h.Logs i h') (b : h'.Logs i h'') :
    h.Logs i h'' :=
  ⟨a.keeps.trans b.keeps, b.buffers.trans a.buffers,
    fun j hj => (b.received j hj).trans (a.received j hj)⟩

theorem Calls.logs {i : Nat} (hc : h.Calls i h') : h.Logs (some i) h' :=
  ⟨hc.keeps, hc.buffers, fun j hj => hc.received j fun he => hj (by rw [he])⟩

theorem logs_journal (i : Option Nat) (h : Host) {j : Journal} (hj : j.output = h.journal.output) :
    h.Logs i { h with journal := j } :=
  ⟨⟨⟨rfl, rfl, rfl⟩, rfl, rfl, hj⟩, rfl, fun _ _ => rfl⟩

/-- A line that was recorded. -/
theorem logs_of_record {r : Nat} {line : Bytes} (hrecord : record r line h = .ok () h') :
    h.Logs none h' ∧ h.Remembers h' := by
  unfold record at hrecord
  cases hr : h.recorders[r]? with
  | none =>
    rw [hr] at hrecord
    cases hrecord
    exact ⟨⟨h.keeps_tell _, rfl, fun j _ => by simp [Event.bytesTo]⟩, remembers_of_sinks rfl⟩
  | some recorder =>
    rw [hr] at hrecord
    dsimp only at hrecord
    split at hrecord
    · cases hrecord
    · cases hrecord
      refine ⟨⟨⟨⟨rfl, rfl, rfl⟩, rfl, funext fun j => ?_, rfl⟩, rfl, fun j _ => ?_⟩,
        remembers_of_sinks rfl⟩
      · simp only [crash?, tell, Array.getElem?_setIfInBounds]
        split
        · next h =>
          obtain ⟨hlt, hget⟩ := Array.getElem?_eq_some_iff.mp hr
          subst h; simp [hlt, hget]
        · rfl
      · rw [received_tell]; exact List.append_nil _

/-- A line that was reported. The sink behind the journal may have failed. -/
theorem logs_of_report {level text : Bytes} {args : List Template.Arg}
    (hreport : report level text args h = .ok () h') :
    h.Logs h.journal.output h' ∧ h.Remembers h' := by
  unfold report at hreport
  rw [Act.get_bind] at hreport
  revert hreport
  cases h.journal.output with
  | none =>
    intro hreport
    cases hreport
    exact ⟨⟨Keeps.refl h, rfl, fun _ _ => rfl⟩, Remembers.refl h⟩
  | some i =>
    intro hreport
    simp only [modifyJournal, Act.modify_bind] at hreport
    generalize lineText h.journal.pending level (Template.message text args) = line at hreport
    have hj : h.Logs (some i) { h with journal := { h.journal with pending := line } } :=
      logs_journal _ h rfl
    split at hreport
    · cases hreport
      exact ⟨hj, remembers_of_sinks rfl⟩
    · obtain ⟨w, h₁, hwrite, hset⟩ := Act.bind_eq_ok.mp hreport
      cases hset
      have hcalls := (replies_of_writeSink hwrite).calls
      exact ⟨(hj.trans hcalls.logs).trans (logs_journal _ h₁ rfl), hcalls.remembers⟩

/-- A line that was sent, whatever the logger does to other lines. -/
theorem logs_of_send {l : Logger} {template : Bytes} {args : List Template.Arg}
    (hsend : l.send template args h = .ok () h') : h.Logs (l.sink? h) h' ∧ h.Remembers h' := by
  induction l generalizing template with
  | absent => cases hsend
  | recorder r => exact logs_of_record hsend
  | journal level => exact logs_of_report hsend
  | indented text inner ih => exact ih hsend

theorem record_of_quiet {r : Nat} (hq : ∀ crash, h.crash? r = some crash → ∀ n, crash n = none)
    (line : Bytes) : ∃ h', record r line h = .ok () h' := by
  unfold record
  cases hr : h.recorders[r]? with
  | none => exact ⟨_, rfl⟩
  | some recorder =>
    simp only [hq recorder.crash (by simp [crash?, hr])]
    exact ⟨_, rfl⟩

theorem report_of_quiet (hq : ∀ i, h.journal.output = some i → h.Calm i) (level text : Bytes)
    (args : List Template.Arg) : ∃ h', report level text args h = .ok () h' := by
  unfold report
  rw [Act.get_bind]
  cases ho : h.journal.output with
  | none => exact ⟨h, rfl⟩
  | some i =>
    simp only [modifyJournal, Act.modify_bind]
    generalize lineText h.journal.pending level (Template.message text args) = line
    split
    · exact ⟨_, rfl⟩
    · have hcalm : Calm { h with journal := { h.journal with pending := line } } i := hq i ho
      obtain ⟨w, h₁, hw⟩ := exists_writeSink hcalm line
      exact ⟨_, Act.bind_ok hw⟩

theorem send_of_quiet {l : Logger} (hq : l.Quiet h) (template : Bytes) (args : List Template.Arg) :
    ∃ h', l.send template args h = .ok () h' := by
  induction l generalizing template with
  | absent => cases hq
  | recorder r => exact record_of_quiet hq _
  | journal level => exact report_of_quiet hq level template args
  | indented text inner ih => exact ih hq (text ++ template)

end Host

/-! ## Sessions -/

namespace Session

/-- There is an outlet, all writes and flushes succeed, and logging never crashes. -/
structure Steady (s : Session) : Prop where
  outlet : s.outlet ≠ []
  writers : ∀ w ∈ s.outlet, w.Reliable s.host
  logger : s.logger.isPresent = true → s.logger.Quiet s.host

/-- The sink `i` keeps what it takes, and gets it only through the writer `w` of the outlet. -/
structure Feeds (s : Session) (w : Writer) (i : Nat) : Prop where
  outlet : Outlet.Feeds s.host s.outlet w i
  logger : s.logger.sink? s.host ≠ some i

/-- Nothing waits in front of a sink. -/
def Flushed (s : Session) : Prop := ∀ w ∈ s.outlet, w.held s.host = []

/-- The session gave its outlet a text. -/
structure Tells (text : Bytes) (s s' : Session) : Prop where
  same : s' = { s with machine := s'.machine, markWidth := s'.markWidth, host := s'.host }
  keeps : s.host.Keeps s'.host
  given : ∀ w i, s.Feeds w i →
    s'.host.received i ++ w.held s'.host = s.host.received i ++ w.held s.host ++ text

variable {s s' s'' : Session} {a b : Bytes}

namespace Tells

variable (h : Tells a s s')

include h

theorem program : s'.program = s.program := by rw [h.same]

theorem strict : s'.strict = s.strict := by rw [h.same]

theorem outlet : s'.outlet = s.outlet := by rw [h.same]

theorem logger : s'.logger = s.logger := by rw [h.same]

theorem steady (hs : s.Steady) : s'.Steady := by
  refine ⟨?_, ?_, ?_⟩
  · rw [h.outlet]; exact hs.outlet
  · rw [h.outlet]; exact fun w hw => h.keeps.reliable (hs.writers w hw)
  · rw [h.logger]; exact fun hl => h.keeps.quiet (hs.logger hl)

theorem feeds {w : Writer} {i : Nat} (hw : s.Feeds w i) : s'.Feeds w i := by
  refine ⟨?_, ?_⟩
  · rw [h.outlet]; exact hw.outlet.resembles h.keeps.toResembles
  · rw [h.logger, h.keeps.logger_sink?]; exact hw.logger

theorem trans (h' : Tells b s' s'') : Tells (a ++ b) s s'' := by
  refine ⟨?_, h.keeps.trans h'.keeps, ?_⟩
  · rw [h'.same, h.same]
  · intro w i hw
    rw [h'.given w i (h.feeds hw), h.given w i hw, List.append_assoc]

end Tells

theorem Tells.then (h : Tells a s s') (h' : Tells [] s' s'') : Tells a s s'' := by
  have := h.trans h'
  rwa [List.append_nil] at this

theorem tells_setMachine (s : Session) (m : Machine) : Tells [] s { s with machine := m } :=
  ⟨rfl, Host.Keeps.refl _, fun _ _ _ => (List.append_nil _).symm⟩

theorem tells_of_spreads {h : Host} (hs : Outlet.Spreads s.outlet a s.host h) :
    Tells a s { s with host := h } :=
  ⟨rfl, hs.keeps, fun w i hw => hs.given w i hw.outlet⟩

theorem tells_of_logs {h : Host} (width : Nat) (hl : s.host.Logs (s.logger.sink? s.host) h) :
    Tells [] s { s with markWidth := width, host := h } := by
  refine ⟨rfl, hl.keeps, ?_⟩
  intro w i hw
  show h.received i ++ w.held h = _
  rw [hl.received i hw.logger, w.held_eq hl.buffers, List.append_nil]

/-! ## Parts of a run -/

/-- If there is a logger, it is sent one line. -/
theorem log_eq (mark text : Bytes) (s : Session) : log mark text s =
    if s.logger.isPresent = true then
      onHost (s.logger.send (bytes "%v %v") [.text (padMark s.markWidth mark), .text text])
        { s with markWidth := max s.markWidth mark.length }
    else .ok () s := by
  unfold log
  rw [Act.get_bind]
  split
  · rw [Act.set_bind]
  · rfl

section
variable (hs : s.Steady)

include hs

/-- Logging leaves the machine and the buffers as they are. -/
theorem log_of_steady (mark text : Bytes) : ∃ s', log mark text s = .ok () s' ∧ Tells [] s s' ∧
    s'.machine = s.machine ∧ s'.host.buffers = s.host.buffers := by
  by_cases hl : s.logger.isPresent = true
  · obtain ⟨h, hsend⟩ := Host.send_of_quiet (hs.logger hl) (bytes "%v %v")
      [.text (padMark s.markWidth mark), .text text]
    obtain ⟨hlogs, -⟩ := Host.logs_of_send hsend
    refine ⟨{ s with markWidth := max s.markWidth mark.length, host := h }, ?_,
      tells_of_logs _ hlogs, rfl, hlogs.buffers⟩
    rw [log_eq, if_pos hl]
    simp only [onHost, Act.zoom, hsend]
  · exact ⟨s, by rw [log_eq, if_neg hl], tells_setMachine s s.machine, rfl, rfl⟩

theorem note_of_steady (n : Note) : ∃ s', note n s = .ok () s' ∧ Tells [] s s' ∧
    s'.machine = s.machine := by
  unfold note
  rw [Act.get_bind]
  by_cases hl : s.logger.isPresent = true
  · obtain ⟨s', hlog, ht, hm, -⟩ := log_of_steady hs n.mark n.render
    exact ⟨s', by rw [if_pos hl]; exact hlog, ht, hm⟩
  · exact ⟨s, by rw [if_neg hl]; rfl, (tells_setMachine s s.machine), rfl⟩

theorem flush_of_steady : ∃ s', onHost s.outlet.flush s = .ok none s' ∧ Tells [] s s' ∧
    s'.machine = s.machine ∧ s'.Flushed := by
  obtain ⟨h, hflush, hsp, hempty⟩ := Outlet.spreads_flush hs.writers hs.outlet
  exact ⟨{ s with host := h }, by simp only [onHost, Act.zoom, hflush], tells_of_spreads hsp, rfl,
    hempty⟩

theorem halt_of_steady (α : Type) (reason : Error) : ∃ s', (halt (some reason) : M α) s =
    .error (.crash (.error (.haltedBy reason))) s' ∧ Tells [] s s' ∧ s'.machine = s.machine ∧
      s'.Flushed := by
  obtain ⟨s₁, hflush, ht₁, hm₁, hempty⟩ := flush_of_steady hs
  obtain ⟨s₂, hlog, ht₂, hm₂, hbuffers⟩ := log_of_steady (ht₁.steady hs) (bytes "#")
    (bytes "halt error: " ++ reason.message)
  have hsettle : settle (some reason) s = .ok (some reason) s₁ := by
    unfold settle
    split
    · next h => exact absurd h hs.outlet
    · simp only [hflush]; rfl
  refine ⟨s₂, ?_, ht₁.then ht₂, hm₂.trans hm₁, ?_⟩
  · unfold halt
    rw [Act.bind_ok hsettle]
    have hshield : Act.shield (log (bytes "#") (bytes "halt error: " ++ reason.message)) s₁ =
        .ok () s₂ := by simp only [Act.shield, hlog]
    exact Act.bind_ok hshield
  · intro w hw
    rw [ht₂.outlet] at hw
    rw [w.held_eq hbuffers]; exact hempty w hw

theorem writeText_of_steady (text : Bytes) : ∃ s', writeText text s = .ok () s' ∧ Tells text s s' ∧
    s'.machine = s.machine := by
  obtain ⟨h, hwrite, hsp⟩ := Outlet.spreads_writeText hs.writers hs.outlet text
  refine ⟨{ s with host := h }, ?_, tells_of_spreads hsp, rfl⟩
  unfold writeText
  rw [Act.get_bind]
  have hhost : onHost (Outlet.writeText s.outlet text) s =
      .ok ⟨text.length, none⟩ { s with host := h } := by
    simp only [onHost, Act.zoom, hwrite]
  exact Act.bind_ok hhost

end

/-! ## A session and an execution -/

/-- The abort by which a stop leaves a run. -/
def abortOf : Stop → Abort
  | .halt reason => .crash (.error (.haltedBy reason))
  | .fault f => .crash (.error (.fault f))

/-- A computation that ends as the execution does: with a value, unless something stopped it. -/
def resultOf {α : Type} (x : Execution) (a : α) (s : Session) : EStateM.Result Abort Session α :=
  match x.stop with
  | none => .ok a s
  | some stop => .error (abortOf stop) s

theorem resultOf_of_none {α : Type} {x : Execution} (h : x.stop = none) (a : α) (s : Session) :
    resultOf x a s = .ok a s := by rw [resultOf, h]

theorem resultOf_of_some {α : Type} {x : Execution} {stop : Stop} (h : x.stop = some stop) (a : α)
    (s : Session) : resultOf x a s = .error (abortOf stop) s := by rw [resultOf, h]

/-- Since `s₀` the session came to have the machine of the execution and gave its outlet the text of
it; a halt left nothing waiting. -/
structure Shows (s₀ : Session) (x : Execution) (s : Session) : Prop where
  machine : s.machine = x.machine
  tells : Tells x.written s₀ s
  flushed : ∀ reason, x.stop = some (.halt reason) → s.Flushed

variable {s₀ : Session} {x : Execution}

theorem shows_of_tells {out : Bytes} (h : Tells out s₀ s) :
    Shows s₀ { machine := s.machine, written := out } s :=
  ⟨rfl, h, fun _ he => nomatch he⟩

/-- A part of a run since `s₀` came to what the execution comes to, or it was halted on the way, and
`Broken` holds of the text of the execution and the session. -/
def Reaches {α : Type} (Broken : Bytes → Session → Prop) (s₀ : Session) (x : Execution) (a : α)
    (r : EStateM.Result Abort Session α) : Prop :=
  (∃ s, r = resultOf x a s ∧ Shows s₀ x s) ∨
    ∃ e s, r = .error (abortOf (.halt e)) s ∧ Broken x.written s

/-- What the surroundings do to a session that has given its outlet a text since `s₀`: it can take
notes, a write passes the text on or breaks the run, and a halt passes on all that waits or breaks
the run. -/
structure Bears (Broken : Bytes → Session → Prop) (s₀ : Session) : Prop where
  note : ∀ (n : Note) {s : Session} {out : Bytes}, Tells out s₀ s →
    ∃ s', Session.note n s = .ok () s' ∧ Tells out s₀ s'
  write : ∀ (text : Bytes) {s : Session} {out : Bytes}, Tells out s₀ s →
    (∃ s', writeText text s = .ok () s' ∧ Tells (out ++ text) s₀ s') ∨
      ∃ e s', writeText text s = .error (abortOf (.halt e)) s' ∧ Broken (out ++ text) s'
  halt : ∀ (reason : Error) {s : Session} {out : Bytes}, Tells out s₀ s →
    Reaches Broken s₀ { machine := s.machine, written := out, stop := some (.halt reason) } ()
      ((Session.halt (some reason) : M Unit) s)
  widen : ∀ {a b : Bytes} {s : Session}, a <+: b → Broken a s → Broken b s

variable {Broken : Bytes → Session → Prop}

theorem play_reaches (hb : s₀.Bears Broken) (script : Script) {out : Bytes} (ht : Tells out s₀ s) :
    Reaches Broken s₀ (script.play out) () (play script s) := by
  induction script generalizing s out with
  | done m => exact .inl ⟨_, rfl, shows_of_tells (ht.then (tells_setMachine s m))⟩
  | halt reason m => exact hb.halt reason (ht.then (tells_setMachine s m))
  | fault f m =>
    exact .inl ⟨_, rfl, rfl, ht.then (tells_setMachine s m), fun _ he => nomatch he⟩
  | note n m rest ih =>
    obtain ⟨s₁, hnote, ht₁⟩ := hb.note n (ht.then (tells_setMachine s m))
    have hplay : play (.note n m rest) s = play rest s₁ :=
      Act.bind_ok (k := fun _ => play rest) hnote
    rw [hplay]
    exact ih ht₁
  | write text m rest ih =>
    rcases hb.write text (ht.then (tells_setMachine s m)) with
      ⟨s₁, hwrite, ht₁⟩ | ⟨e, s₁, hwrite, hbroken⟩
    · have hplay : play (.write text m rest) s = play rest s₁ :=
        Act.bind_ok (k := fun _ => play rest) hwrite
      rw [hplay]
      exact ih ht₁
    · have hplay : play (.write text m rest) s = .error (abortOf (.halt e)) s₁ :=
        Act.bind_error (k := fun _ => play rest) hwrite
      exact .inr ⟨e, s₁, hplay, hb.widen (Execution.prefix_play rest (out ++ text)) hbroken⟩

/-- One instruction, and what the context says to it. -/
theorem step_reaches (hb : s₀.Bears Broken) (hx : Shows s₀ x s)
    (hover : x.isOver s₀.program = false) (answer : Option Error) :
    Reaches Broken s₀ (x.advance s₀.program s₀.strict answer) ()
      ((do step; haltIf answer : M Unit) s) := by
  have hplay := play_reaches hb (x.machine.step s₀.program s₀.strict) hx.tells
  have hstep : step s = play (x.machine.step s₀.program s₀.strict) s := by
    rw [step, Act.get_bind, hx.machine, hx.tells.program, hx.tells.strict]
  simp only [Execution.advance, hover, Bool.false_eq_true, if_false]
  rw [← hstep] at hplay
  generalize (x.machine.step s₀.program s₀.strict).play x.written = y at hplay ⊢
  obtain ⟨m, out, stop⟩ := y
  rcases hplay with ⟨s₁, hplay, hshows⟩ | ⟨e, s₁, hplay, hbroken⟩
  · rcases stop with _ | stop
    · rcases answer with _ | reason
      · exact .inl ⟨s₁, Act.bind_ok hplay, hshows⟩
      · have hhalt := hb.halt reason hshows.tells
        rw [hshows.machine] at hhalt
        have hboth : (do step; haltIf (some reason) : M Unit) s = haltIf (some reason) s₁ :=
          Act.bind_ok hplay
        rw [hboth]
        exact hhalt
    · exact .inl ⟨s₁, Act.bind_error hplay, hshows⟩
  · exact .inr ⟨e, s₁, Act.bind_error hplay, hbroken⟩

theorem execute_succ (context : Context) (fuel asked : Nat) (s : Session) :
    execute context (fuel + 1) asked s =
      if s.machine.next < s.program.size then
        ((do step; haltIf (context asked) : M Unit) >>= fun _ => execute context fuel (asked + 1)) s
      else .ok true s := by
  rw [execute, Act.get_bind]
  split
  · rw [bind_assoc]
  · rfl

/-- A whole execution. -/
theorem execute_reaches (hb : s₀.Bears Broken) (context : Context) (fuel asked : Nat)
    (hx : Shows s₀ x s) (hstop : x.stop = none) :
    Reaches Broken s₀ (x.after s₀.program s₀.strict context asked fuel)
      (!decide ((x.after s₀.program s₀.strict context asked fuel).machine.next < s₀.program.size))
      (execute context fuel asked s) := by
  induction fuel generalizing x s asked with
  | zero =>
    refine .inl ⟨s, ?_, hx⟩
    rw [execute, Act.get_bind, Act.get_bind, hx.machine, hx.tells.program, Execution.after_zero,
      resultOf_of_none hstop]
    rfl
  | succ fuel ih =>
    rw [execute_succ, hx.machine, hx.tells.program]
    by_cases hlt : x.machine.next < s₀.program.size
    · have hover : x.isOver s₀.program = false := Execution.isOver_eq_false.mpr ⟨hstop, hlt⟩
      rw [if_pos hlt, Execution.after_succ]
      rcases step_reaches hb hx hover (context asked) with
        ⟨s₁, hstep, hshows⟩ | ⟨e, s₁, hstep, hbroken⟩
      · cases hy : (x.advance s₀.program s₀.strict (context asked)).stop with
        | none =>
          rw [resultOf_of_none hy] at hstep
          rw [Act.bind_ok hstep]
          exact ih (asked + 1) hshows hy
        | some stop =>
          have hover' : (x.advance s₀.program s₀.strict (context asked)).isOver s₀.program =
              true := by simp [Execution.isOver, hy]
          rw [resultOf_of_some hy] at hstep
          rw [Act.bind_error hstep, Execution.after_of_isOver hover']
          exact .inl ⟨s₁, (resultOf_of_some hy _ s₁).symm, hshows⟩
      · refine .inr ⟨e, s₁, Act.bind_error hstep, hb.widen ?_ hbroken⟩
        exact Execution.prefix_after context (asked + 1) fuel _
    · have hover : x.isOver s₀.program = true := by simp [Execution.isOver, hlt]
      rw [if_neg hlt, Execution.after_of_isOver hover]
      exact .inl ⟨s, by rw [resultOf_of_none hstop]; simp [hlt], hx⟩

/-- Nothing breaks the run of a steady session. -/
theorem bears_of_steady (hs : s₀.Steady) : s₀.Bears fun _ _ => False := by
  refine ⟨fun n s out ht => ?_, fun text s out ht => .inl ?_, fun reason s out ht => .inl ?_,
    fun _ h => h⟩
  · obtain ⟨s', hnote, ht', -⟩ := note_of_steady (ht.steady hs) n
    exact ⟨s', hnote, ht.then ht'⟩
  · obtain ⟨s', hwrite, ht', -⟩ := writeText_of_steady (ht.steady hs) text
    exact ⟨s', hwrite, ht.trans ht'⟩
  · obtain ⟨s', hhalt, ht', hm, hempty⟩ := halt_of_steady (ht.steady hs) Unit reason
    exact ⟨s', hhalt, hm, ht.then ht', fun _ _ => hempty⟩

theorem execute_shows (hs : s₀.Steady) (context : Context) (fuel asked : Nat) (hx : Shows s₀ x s)
    (hstop : x.stop = none) :
    ∃ s', execute context fuel asked s =
        resultOf (x.after s₀.program s₀.strict context asked fuel)
          (!decide ((x.after s₀.program s₀.strict context asked fuel).machine.next <
            s₀.program.size)) s' ∧
      Shows s₀ (x.after s₀.program s₀.strict context asked fuel) s' := by
  rcases execute_reaches (bears_of_steady hs) context fuel asked hx hstop with h | ⟨_, _, _, h⟩
  · exact h
  · exact h.elim

/-! ## Runs -/

/-- The text in front of what the program writes. -/
def heading (s : Session) : Bytes :=
  match s.listing with
  | none => []
  | some coloured => Listing.render s.program coloured

theorem start_of_steady (hs : s.Steady) :
    ∃ s', start s = .ok () s' ∧ Tells s.heading s s' ∧ s'.machine = s.machine := by
  unfold start heading
  rw [Act.get_bind]
  cases s.listing with
  | none =>
    obtain ⟨s', hlog, ht, hm, -⟩ := log_of_steady hs (bytes "#")
      (bytes "run " ++ Decimal.ofNat s.program.size ++ bytes " instructions")
    exact ⟨s', hlog, ht, hm⟩
  | some coloured =>
    obtain ⟨s₁, hwrite, ht, hm⟩ := writeText_of_steady hs (Listing.render s.program coloured)
    obtain ⟨s₂, hlog, ht', hm', -⟩ := log_of_steady (ht.steady hs) (bytes "#")
      (bytes "run " ++ Decimal.ofNat s.program.size ++ bytes " instructions")
    exact ⟨s₂, (Act.bind_ok hwrite).trans hlog, ht.then ht', hm'.trans hm⟩

theorem finish_of_steady (hs : s.Steady) :
    ∃ s', finish s = .ok none s' ∧ Tells [] s s' ∧ s'.machine = s.machine ∧ s'.Flushed := by
  obtain ⟨s₁, hlog, ht, hm, -⟩ := log_of_steady hs (bytes "#")
    (bytes "done, stack:" ++ Note.showStack s.machine.stack)
  obtain ⟨s₂, hflush, ht', hm', hempty⟩ := flush_of_steady (ht.steady hs)
  rw [ht.outlet] at hflush
  refine ⟨s₂, ?_, ht.then ht', hm'.trans hm, hempty⟩
  rw [finish, Act.get_bind, Act.bind_ok hlog]
  exact hflush

/-- The machine of a session at work by itself, for so many instructions. -/
def execution (s : Session) (context : Context) (asked fuel : Nat) : Execution :=
  Execution.after s.program s.strict context asked fuel { machine := s.machine }

/-- The indentation is taken off again. -/
theorem indented_shows (hs : s.Steady) (context : Context) (fuel asked : Nat) :
    ∃ s', indented (execute context fuel asked) s = resultOf (s.execution context asked fuel)
        (!decide ((s.execution context asked fuel).machine.next < s.program.size)) s' ∧
      Shows s (s.execution context asked fuel) s' := by
  have hself : ∀ t : Session, Shows t { machine := t.machine } t := fun t =>
    shows_of_tells (tells_setMachine t t.machine)
  unfold indented
  split
  · next hl =>
    -- the same session with an indented logger
    have hs' : Steady { s with logger := .indented (bytes "\t") s.logger } :=
      ⟨hs.outlet, hs.writers, fun _ => hs.logger hl⟩
    obtain ⟨s', hrun, hshows⟩ := execute_shows hs' context fuel asked (hself _) rfl
    refine ⟨{ s' with logger := s.logger }, ?_, hshows.machine, ⟨?_, hshows.tells.keeps, ?_⟩,
      hshows.flushed⟩
    · rw [hrun, execution]
      cases hstop : (Execution.after s.program s.strict context asked fuel
        { machine := s.machine }).stop with
      | none => rw [resultOf_of_none hstop, resultOf_of_none hstop]
      | some stop => rw [resultOf_of_some hstop, resultOf_of_some hstop]
    · rw [hshows.tells.same]
    · intro w i hw
      exact hshows.tells.given w i ⟨hw.outlet, hw.logger⟩
  · exact execute_shows hs context fuel asked (hself s) rfl

/-- How a run ends by how its execution does. -/
def outcomeOf (p : Program) (x : Execution) : Outcome :=
  match x.stop with
  | none => if x.machine.next < p.size then .unfinished else .ended none
  | some (.halt reason) => .ended (some reason)
  | some (.fault f) => .ended (some (.crashedBy name (.fault f)))

section
variable {p : Program} {error : Option Error}

theorem outcomeOf_of_stop (hstop : x.stop = error.map .halt)
    (hnext : error = none → x.machine.next = p.size) : outcomeOf p x = .ended error := by
  cases error with
  | none => simp [outcomeOf, hstop, hnext rfl]
  | some e => simp [outcomeOf, hstop]

theorem stop_of_outcomeOf (h : outcomeOf p x = .ended error)
    (hfault : ∀ f, x.stop ≠ some (.fault f)) :
    x.stop = error.map .halt ∧ (error = none → ¬ x.machine.next < p.size) := by
  unfold outcomeOf at h
  split at h
  · next hstop =>
    split at h <;> cases h
    next hlt => exact ⟨hstop, fun _ => hlt⟩
  · next hstop => cases h; exact ⟨hstop, fun he => nomatch he⟩
  · next f hstop => exact absurd hstop (hfault f)

theorem isOver_of_outcomeOf (h : outcomeOf p x = .ended error) : x.isOver p = true := by
  unfold outcomeOf at h
  split at h
  · split at h
    · cases h
    · next hlt => simp [Execution.isOver, hlt]
  all_goals next hstop => simp [Execution.isOver, hstop]

end

/-- Since `s₀` the session came to have the machine of the execution and gave its outlet a text;
unless a fault or the fuel ended the execution, nothing is left waiting. -/
structure Settles (s₀ : Session) (x : Execution) (text : Bytes) (s : Session) : Prop where
  machine : s.machine = x.machine
  tells : Tells text s₀ s
  flushed : ∀ error, outcomeOf s₀.program x = .ended error → (∀ f, x.stop ≠ some (.fault f)) →
    s.Flushed

theorem Settles.behind {text : Bytes} (ht : Tells a s s') (h : s'.Settles x text s'') :
    s.Settles x (a ++ text) s'' := by
  refine ⟨h.machine, ht.trans h.tells, ?_⟩
  rw [← ht.program]; exact h.flushed

/-- A halt gives way to its reason. -/
theorem contained_of_halt {act : M Outcome} {e : Error}
    (h : act s = .error (abortOf (.halt e)) s') : contained act s = (.ended (some e), s') := by
  rw [contained_error h]; rfl

/-- A run from its first instruction on. -/
theorem proceed_reaches {context : Context} {fuel asked : Nat}
    (hexecute : Reaches Broken s x (!decide (x.machine.next < s.program.size))
      (indented (execute context fuel asked) s))
    (hfinish : ∀ s₁, Shows s x s₁ →
      (∃ s₂, finish s₁ = .ok none s₂ ∧ Tells [] s₁ s₂ ∧ s₂.machine = s₁.machine ∧ s₂.Flushed) ∨
        ∃ e s₂, finish s₁ = .ok (some e) s₂ ∧ Error.NoHalt (some e) ∧ Broken x.written s₂) :
    (∃ s', contained (proceed context fuel asked) s = (outcomeOf s.program x, s') ∧
      Settles s x x.written s') ∨
    ∃ e s', contained (proceed context fuel asked) s = (.ended (some e), s') ∧
      Broken x.written s' := by
  rcases hexecute with ⟨s₁, hrun, hshows⟩ | ⟨e, s₁, hrun, hbroken⟩
  · rcases hstop : x.stop with _ | stop
    · rw [resultOf_of_none hstop] at hrun
      by_cases hlt : x.machine.next < s.program.size
      · refine .inl ⟨s₁, ?_, hshows.machine, hshows.tells, ?_⟩
        · have hproceed : proceed context fuel asked s = .ok .unfinished s₁ := by
            rw [proceed, Act.bind_ok hrun]
            simp only [hlt, decide_true, Bool.not_true, Bool.false_eq_true, if_false]
            rfl
          rw [contained_ok hproceed]
          simp [outcomeOf, hstop, hlt, Outcome.withoutHalt]
        · intro error he _
          simp [outcomeOf, hstop, hlt] at he
      · have hproceed : proceed context fuel asked s =
            (do return .ended (← finish) : M Outcome) s₁ := by
          rw [proceed, Act.bind_ok hrun]
          simp only [hlt, decide_false, Bool.not_false, if_true]
        rcases hfinish s₁ hshows with ⟨s₂, hend, ht, hm, hempty⟩ | ⟨e, s₂, hend, he, hbroken⟩
        · refine .inl ⟨s₂, ?_, hm.trans hshows.machine, hshows.tells.then ht, fun _ _ _ => hempty⟩
          rw [contained_ok (hproceed.trans (Act.bind_ok hend))]
          simp [outcomeOf, hstop, hlt]
        · refine .inr ⟨e, s₂, ?_, hbroken⟩
          rw [contained_ok (hproceed.trans (Act.bind_ok hend)), Outcome.withoutHalt_ended,
            he.withoutHalt]
    · rw [resultOf_of_some hstop] at hrun
      refine .inl ⟨s₁, ?_, hshows.machine, hshows.tells, ?_⟩
      · have hproceed : proceed context fuel asked s = .error (abortOf stop) s₁ := by
          rw [proceed, Act.bind_error hrun]
        rw [contained_error hproceed, outcomeOf, hstop]
        cases stop <;> rfl
      · intro error _ hfault
        cases stop with
        | halt reason => exact hshows.flushed reason hstop
        | fault f => exact absurd hstop (hfault f)
  · exact .inr ⟨e, s₁, contained_of_halt (Act.bind_error hrun), hbroken⟩

theorem proceed_of_steady (hs : s.Steady) (context : Context) (fuel asked : Nat) :
    ∃ s', contained (proceed context fuel asked) s =
        (outcomeOf s.program (s.execution context asked fuel), s') ∧
      Settles s (s.execution context asked fuel) (s.execution context asked fuel).written s' := by
  have hexecute : Reaches (fun _ _ => False) s (s.execution context asked fuel) _
      (indented (execute context fuel asked) s) := .inl (indented_shows hs context fuel asked)
  have hfinish := fun s₁ (hshows : Shows s (s.execution context asked fuel) s₁) =>
    finish_of_steady (hshows.tells.steady hs)
  rcases proceed_reaches hexecute (fun s₁ h => .inl (hfinish s₁ h)) with h | ⟨_, _, _, h⟩
  · exact h
  · exact h.elim

/-- The run behind its start. -/
theorem run_of_start (hstart : start s = .ok () s') (ht : Tells a s s')
    (hm : s'.machine = s.machine) (context : Context) (fuel : Nat) :
    s.run context fuel = contained (proceed context fuel 0) s' ∧
      s'.execution context 0 fuel = s.execution context 0 fuel := by
  refine ⟨?_, by rw [execution, execution, ht.program, ht.strict, hm]⟩
  exact contained_congr (Act.bind_ok hstart)

/-- **A run of a steady session is an execution of its machine.** -/
theorem run_of_steady (hs : s.Steady) (context : Context) (fuel : Nat) :
    ∃ s', s.run context fuel = (outcomeOf s.program (s.execution context 0 fuel), s') ∧
      Settles s (s.execution context 0 fuel)
        (s.heading ++ (s.execution context 0 fuel).written) s' := by
  obtain ⟨s₁, hstart, ht, hm⟩ := start_of_steady hs
  obtain ⟨hrun, hexecution⟩ := run_of_start hstart ht hm context fuel
  obtain ⟨s₂, hproceed, hsettles⟩ := proceed_of_steady (ht.steady hs) context fuel 0
  rw [ht.program, hexecution] at hproceed
  rw [hexecution] at hsettles
  exact ⟨s₂, hrun.trans hproceed, hsettles.behind ht⟩

/-- A session that writes to a sink in memory. -/
def inMemory (p : Program) (stack : List Value) : Session :=
  { program := p, machine := { stack }, outlet := [.direct 0],
    host := { sinks := #[{ kind := .memory }] } }

theorem steady_inMemory (p : Program) (stack : List Value) : (inMemory p stack).Steady := by
  refine ⟨by simp [inMemory], ?_, fun hl => by cases hl⟩
  intro w hw
  obtain rfl : w = .direct 0 := by simpa [inMemory] using hw
  refine ⟨?_, (fun i p hi => nomatch hi), rfl⟩
  intro i hi p hp past data
  cases hi; cases hp; rfl

theorem feeds_inMemory (p : Program) (stack : List Value) :
    (inMemory p stack).Feeds (.direct 0) 0 := by
  refine ⟨⟨by simp [inMemory], rfl, ⟨.memory, rfl, by decide⟩, rfl⟩, ?_⟩
  intro h; cases h

end Session

end WordStack
