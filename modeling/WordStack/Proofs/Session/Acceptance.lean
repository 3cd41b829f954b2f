import WordStack.Proofs.Session.Delivery
import WordStack.Proofs.Session.Returning

/-!
# Runs that return without an error have written everything

Nothing is asked of the sinks here: a write may take less than it was given and return no error. The
outlet finds out by itself. A buffer takes a short count for an error and keeps it, so that the last
flush returns it, and a fan-out returns an error of its own. But a lone writer without a buffer is
called straight away, and nobody looks at the count.

* `Session.Yields`: a session gave its outlet a text, as far as can be told: if the outlet is sound
  afterwards, all of it was taken.
* `Session.yields_of_log`: logging gives it nothing.
* `Session.play_comes`, `Session.step_comes`, `Session.execute_comes`: instructions that were carried
  out to the end have given the outlet what the machine writes by itself.
* `run_accepted`: so a run that returns without an error has written everything, unless its only
  sink is one that is called straight away and came up short.
-/
namespace WordStack

theorem Writer.sink?_of_bare {w : Writer} {h : Host} {i : Nat} (hw : w.bare? = some i) :
    w.sink? h = some i := by
  cases w with
  | discard | buffered b => cases hw
  | direct j | flushing j => exact hw

namespace Session

/-- Since `s`, the outlet was given a text; it took all of it if it is sound. -/
structure Yields (text : Bytes) (s s' : Session) : Prop where
  within : s.Within s'
  sticks : s.host.Sticks s'.host
  tells : Outlet.Sound s'.host s.outlet → Tells text s s'

variable {s s' s'' s₀ : Session} {a b text : Bytes} {x : Execution}

theorem Within.outlet (h : s.Within s') : s'.outlet = s.outlet := by rw [h]

theorem yields_setMachine (s : Session) (m : Machine) : Yields [] s { s with machine := m } :=
  ⟨rfl, Host.Sticks.refl _, fun _ => tells_setMachine s m⟩

theorem Yields.trans (h : Yields a s s') (h' : Yields b s' s'') : Yields (a ++ b) s s'' := by
  refine ⟨h.within.trans h'.within, h.sticks.trans h'.sticks, fun hsound => ?_⟩
  have ht' := h'.tells (by rw [h.within.outlet]; exact hsound)
  exact (h.tells (hsound.before h'.sticks)).trans ht'

theorem Yields.then (h : Yields a s s') (h' : Yields [] s' s'') : Yields a s s'' := by
  have := h.trans h'
  rwa [List.append_nil] at this

/-! ## Parts of a run -/

theorem onHost_eq_ok {α : Type} {act : Act Host α} {r : α} (h : onHost act s = .ok r s') :
    ∃ host, act s.host = .ok r host ∧ s' = { s with host } := by
  unfold onHost Act.zoom at h
  split at h
  · next host hact => cases h; exact ⟨host, hact, rfl⟩
  · cases h

/-- A halt never returns. -/
theorem halt_ne_ok {α : Type} (reason : Option Error) (r : α) :
    (halt reason : M α) s ≠ .ok r s' := by
  intro h
  obtain ⟨e, s₁, -, hrest⟩ := Act.bind_eq_ok.mp h
  cases e with
  | none => obtain ⟨_, s₂, -, hcrash⟩ := Act.bind_eq_ok.mp hrest; cases hcrash
  | some e => obtain ⟨_, s₂, -, hcrash⟩ := Act.bind_eq_ok.mp hrest; cases hcrash

theorem haltIf_eq_ok {reason : Option Error} (h : haltIf reason s = .ok () s') :
    reason = none ∧ s' = s := by
  cases reason with
  | none => cases h; exact ⟨rfl, rfl⟩
  | some e => exact absurd h (halt_ne_ok _ _)

/-- What logging does if it returns: it sends a line, if there is a logger. -/
theorem log_eq_ok {mark text : Bytes} : log mark text s = .ok () s' ↔
    s.logger.isPresent = true ∧ (∃ host, s.logger.send (bytes "%v %v")
      [.text (padMark s.markWidth mark), .text text] s.host = .ok () host ∧
      s' = { s with markWidth := max s.markWidth mark.length, host }) ∨
    s.logger.isPresent = false ∧ s' = s := by
  rw [log_eq]
  cases hl : s.logger.isPresent with
  | false =>
    rw [if_neg Bool.false_ne_true]
    constructor
    · intro h
      cases h
      exact .inr ⟨rfl, rfl⟩
    · intro h
      rcases h with ⟨hfalse, -⟩ | ⟨-, rfl⟩
      · cases hfalse
      · rfl
  | true =>
    rw [if_pos rfl]
    constructor
    · intro h
      obtain ⟨host, hsend, rfl⟩ := onHost_eq_ok h
      exact .inl ⟨rfl, host, hsend, rfl⟩
    · intro h
      rcases h with ⟨-, host, hsend, rfl⟩ | ⟨hfalse, -⟩
      · simp only [onHost, Act.zoom, hsend]
      · cases hfalse

/-- Logging gives the outlet nothing. -/
theorem yields_of_log {mark text : Bytes} (h : log mark text s = .ok () s') :
    Yields [] s s' ∧ s'.machine = s.machine := by
  rcases log_eq_ok.mp h with ⟨-, host, hsend, rfl⟩ | ⟨-, rfl⟩
  · obtain ⟨hlogs, hremembers⟩ := Host.logs_of_send hsend
    exact ⟨⟨rfl, hlogs.keeps.sticks hremembers, fun _ => tells_of_logs _ hlogs⟩, rfl⟩
  · exact ⟨yields_setMachine s' s'.machine, rfl⟩

theorem yields_of_note {n : Note} (h : note n s = .ok () s') : Yields [] s s' := by
  unfold note at h
  rw [Act.get_bind] at h
  split at h
  · exact (yields_of_log h).1
  · cases h
    exact yields_setMachine s s.machine

/-- What a write does if it returns: the outlet returned no error. -/
theorem writeText_eq_ok : writeText text s = .ok () s' ↔ ∃ r host,
    s.outlet.writeText text s.host = .ok r host ∧ r.error = none ∧ s' = { s with host } := by
  unfold writeText
  rw [Act.get_bind, Act.bind_eq_ok]
  constructor
  · intro ⟨r, s₁, hwrite, hhalt⟩
    obtain ⟨host, hhost, rfl⟩ := onHost_eq_ok hwrite
    obtain ⟨herror, rfl⟩ := haltIf_eq_ok hhalt
    exact ⟨r, host, hhost, herror, rfl⟩
  · intro ⟨r, host, hhost, herror, hs⟩
    rw [hs]
    refine ⟨r, { s with host }, ?_, ?_⟩
    · simp only [onHost, Act.zoom, hhost]
    · rw [herror]; rfl

theorem yields_of_writeText (h : writeText text s = .ok () s') :
    Yields text s s' ∧ s'.machine = s.machine := by
  obtain ⟨r, host, hhost, herror, rfl⟩ := writeText_eq_ok.mp h
  obtain ⟨hsticks, hspreads⟩ := Outlet.spreads_of_writeText hhost
  exact ⟨⟨rfl, hsticks, fun hsound => tells_of_spreads (hspreads herror hsound)⟩, rfl⟩

/-! ## Instructions -/

/-- Since `s₀` the session came to have the machine of the execution and gave its outlet the text of
it. -/
structure Comes (s₀ : Session) (x : Execution) (s : Session) : Prop where
  machine : s.machine = x.machine
  yields : Yields x.written s₀ s

theorem play_comes {script : Script} {out : Bytes} (hy : Yields out s₀ s)
    (hplay : play script s = .ok () s') :
    (script.play out).stop = none ∧ Comes s₀ (script.play out) s' := by
  induction script generalizing s out with
  | done m => cases hplay; exact ⟨rfl, rfl, hy.then (yields_setMachine s m)⟩
  | halt reason m =>
    have hhalt : halt (some reason) { s with machine := m } = .ok () s' := hplay
    exact absurd hhalt (halt_ne_ok _ _)
  | fault f m => cases hplay
  | note n m rest ih =>
    have hm := hy.then (yields_setMachine s m)
    have hboth : (note n >>= fun _ => play rest) { s with machine := m } = .ok () s' := hplay
    obtain ⟨_, s₁, hnote, hrest⟩ := Act.bind_eq_ok.mp hboth
    exact ih (hm.then (yields_of_note hnote)) hrest
  | write t m rest ih =>
    have hm := hy.then (yields_setMachine s m)
    have hboth : (writeText t >>= fun _ => play rest) { s with machine := m } = .ok () s' := hplay
    obtain ⟨_, s₁, hwrite, hrest⟩ := Act.bind_eq_ok.mp hboth
    exact ih (hm.trans (yields_of_writeText hwrite).1) hrest

/-- One instruction, and what the context says to it. -/
theorem step_comes {answer : Option Error} (hx : Comes s₀ x s)
    (hover : x.isOver s₀.program = false)
    (hstep : (do step; haltIf answer : M Unit) s = .ok () s') :
    (x.advance s₀.program s₀.strict answer).stop = none ∧
      Comes s₀ (x.advance s₀.program s₀.strict answer) s' := by
  obtain ⟨_, s₁, hfirst, hhalt⟩ := Act.bind_eq_ok.mp hstep
  obtain ⟨rfl, rfl⟩ := haltIf_eq_ok hhalt
  have hplay : play (x.machine.step s₀.program s₀.strict) s = .ok () s' := by
    rw [← hx.machine, ← hx.yields.within.program, ← hx.yields.within.strict]
    exact hfirst
  obtain ⟨hstop, hcomes⟩ := play_comes hx.yields hplay
  simp only [Execution.advance, hover, Bool.false_eq_true, if_false]
  rw [hstop]
  exact ⟨rfl, hcomes.machine, hcomes.yields⟩

theorem execute_comes {c : Context} {fuel asked : Nat} {stopped : Bool} (hx : Comes s₀ x s)
    (hstop : x.stop = none) (hexecute : execute c fuel asked s = .ok stopped s') :
    (x.after s₀.program s₀.strict c asked fuel).stop = none ∧
      stopped = !decide ((x.after s₀.program s₀.strict c asked fuel).machine.next < s₀.program.size) ∧
      Comes s₀ (x.after s₀.program s₀.strict c asked fuel) s' := by
  have hsize : s.program.size = s₀.program.size := by rw [hx.yields.within.program]
  induction fuel generalizing x s asked with
  | zero =>
    by_cases hlt : s.machine.next < s.program.size
    · rw [execute_zero hlt] at hexecute
      cases hexecute
      rw [hx.machine, hsize] at hlt
      exact ⟨hstop, by simp [hlt], hx⟩
    · rw [execute_of_over hlt] at hexecute
      cases hexecute
      rw [hx.machine, hsize] at hlt
      exact ⟨hstop, by simp [hlt], hx⟩
  | succ fuel ih =>
    rw [execute_succ] at hexecute
    split at hexecute
    · next hlt =>
      rw [hx.machine, hsize] at hlt
      have hover : x.isOver s₀.program = false := Execution.isOver_eq_false.mpr ⟨hstop, hlt⟩
      obtain ⟨_, s₁, hstep, hrest⟩ := Act.bind_eq_ok.mp hexecute
      obtain ⟨hstop₁, hx₁⟩ := step_comes hx hover hstep
      rw [Execution.after_succ]
      exact ih hx₁ hstop₁ hrest (by rw [hx₁.yields.within.program])
    · next hlt =>
      rw [hx.machine, hsize] at hlt
      have hover : x.isOver s₀.program = true := by simp [Execution.isOver, hlt]
      cases hexecute
      rw [Execution.after_of_isOver hover]
      exact ⟨hstop, by simp [hlt], hx⟩

/-! ## Runs -/

/-- What the inner session gave its outlet. -/
theorem Yields.of_inner (h : Yields text s.inner s') : Yields text s { s' with logger := s.logger } := by
  have hlogger : s.inner.logger.sink? s.host = s.logger.sink? s.host := by
    unfold inner; split <;> rfl
  rw [inner_eq] at h
  refine ⟨by rw [Within, h.within], h.sticks, fun hsound => ?_⟩
  have ht := h.tells hsound
  refine ⟨by rw [ht.same], ht.keeps, fun w i hw => ht.given w i ⟨hw.outlet, ?_⟩⟩
  exact hlogger.trans_ne hw.logger

/-- Instructions that were all carried out. -/
theorem indented_comes {c : Context} {n : Nat} {stopped : Bool}
    (h : indented (execute c n 0) s = .ok stopped s') : (s.execution c 0 n).stop = none ∧
      stopped = !decide ((s.execution c 0 n).machine.next < s.program.size) ∧
      Comes s (s.execution c 0 n) s' := by
  rw [indented_eq (execute_within c n 0)] at h
  have hself : Comes s.inner { machine := s.inner.machine } s.inner :=
    ⟨rfl, yields_setMachine s.inner s.inner.machine⟩
  have hsame : Execution.after s.inner.program s.inner.strict c 0 n { machine := s.inner.machine } =
      s.execution c 0 n := by rw [inner_eq]; rfl
  have hprogram : s.inner.program = s.program := by rw [inner_eq]
  cases hexecute : execute c n 0 s.inner with
  | error e t => rw [hexecute] at h; cases h
  | ok result t =>
    rw [hexecute] at h
    cases h
    obtain ⟨hstop, hover, hcomes⟩ := execute_comes hself rfl hexecute
    rw [hsame] at hstop hover hcomes
    rw [hprogram] at hover
    exact ⟨hstop, hover, hcomes.machine, hcomes.yields.of_inner⟩

theorem yields_of_start (h : start s = .ok () s') :
    Yields s.heading s s' ∧ s'.machine = s.machine := by
  unfold start at h
  unfold heading
  rw [Act.get_bind] at h
  cases hlisting : s.listing with
  | none =>
    rw [hlisting] at h
    exact yields_of_log h
  | some coloured =>
    rw [hlisting] at h
    obtain ⟨_, s₁, hwrite, hlog⟩ := Act.bind_eq_ok.mp h
    obtain ⟨hy, hm⟩ := yields_of_writeText hwrite
    obtain ⟨hy₁, hm₁⟩ := yields_of_log hlog
    exact ⟨hy.then hy₁, hm₁.trans hm⟩

/-- A flush at the end that returns no error: no buffer has kept one. -/
theorem yields_of_finish (h : finish s = .ok none s') : Yields [] s s' ∧ s'.machine = s.machine ∧
    (∀ w ∈ s.outlet, w.failure? s'.host = none) ∧ s'.Flushed := by
  rw [finish, Act.get_bind] at h
  obtain ⟨_, s₁, hlog, hflush⟩ := Act.bind_eq_ok.mp h
  obtain ⟨hy, hm⟩ := yields_of_log hlog
  obtain ⟨host, hhost, rfl⟩ := onHost_eq_ok hflush
  rw [← hy.within.outlet] at hhost ⊢
  obtain ⟨hsticks, hnone⟩ := Outlet.empties_of_flush hhost
  obtain ⟨hfailures, hempties⟩ := hnone rfl
  have hy₁ : Yields [] s₁ { s₁ with host } :=
    ⟨rfl, hsticks, fun _ => tells_of_spreads hempties.spreads⟩
  exact ⟨hy.then hy₁, hm, hfailures, hempties.held⟩

/-- A flush at the end returns no halt, so what is reported of it is what it returned. -/
theorem noHalt_of_finish {error : Option Error} (h : finish s = .ok error s')
    (hkept : ∀ w ∈ s.outlet, Error.NoHalt (w.failure? s.host)) : Error.NoHalt error := by
  rw [finish, Act.get_bind] at h
  obtain ⟨_, s₁, hlog, hflush⟩ := Act.bind_eq_ok.mp h
  obtain ⟨hy, -⟩ := yields_of_log hlog
  obtain ⟨host, hhost, rfl⟩ := onHost_eq_ok hflush
  exact Outlet.noHalt_of_flush hhost fun w hw => hy.sticks.writer_noHalt (hkept w hw)

/-- What a run that returns without an error comes to. -/
theorem settles_of_returns {c : Context} {n : Nat} (hrun : s.run c n = (.ended none, s'))
    (hkept : ∀ w ∈ s.outlet, Error.NoHalt (w.failure? s.host)) :
    outcomeOf s.program (s.execution c 0 n) = .ended none ∧ (s.execution c 0 n).stop = none ∧
      s'.machine = (s.execution c 0 n).machine ∧
      ((∀ w i, s.outlet = [w] → w.bare? = some i → s'.host.hasFailed i = false) →
        s.Settles (s.execution c 0 n) (s.heading ++ (s.execution c 0 n).written) s') := by
  obtain ⟨s₁, s₂, error, hstart, hindented, hfinish, hnone⟩ := returns_of_run hrun
  obtain ⟨hy₁, hm₁⟩ := yields_of_start hstart
  obtain ⟨hstop, hover, hcomes⟩ := indented_comes hindented
  have hsame : s₁.execution c 0 n = s.execution c 0 n := by
    rw [execution, execution, hy₁.within.program, hy₁.within.strict, hm₁]
  rw [hsame] at hstop hover hcomes
  rw [hy₁.within.program] at hover
  have hbefore := hy₁.trans hcomes.yields
  have houtlet : s₂.outlet = s.outlet := hbefore.within.outlet
  have hnoHalt : Error.NoHalt error := noHalt_of_finish hfinish fun w hw =>
    hbefore.sticks.writer_noHalt (hkept w (houtlet ▸ hw))
  obtain rfl : error = none := hnoHalt.withoutHalt.symm.trans hnone
  obtain ⟨hy₂, hm₂, hfailures, hflushed⟩ := yields_of_finish hfinish
  have hall := hbefore.then hy₂
  have hend : ¬ (s.execution c 0 n).machine.next < s.program.size := by simpa using hover
  have hmachine := hm₂.trans hcomes.machine
  refine ⟨by simp [outcomeOf, hstop, hend], hstop, hmachine, fun hlone => ?_⟩
  have hsound : Outlet.Sound s'.host s.outlet := ⟨by rw [← houtlet]; exact hfailures, hlone⟩
  exact ⟨hmachine, hall.tells hsound, fun _ _ _ => hflushed⟩

/-- The same session, which logs nothing. -/
def silent (s : Session) : Session := { s with logger := .absent }

theorem fullText_silent (s : Session) (c : Context) (n : Nat) :
    s.silent.fullText c n = s.heading ++ (s.execution c 0 n).written :=
  fullText_eq (s := s.silent) rfl c n

/-- The only writer has no buffer, and its sink has failed. -/
theorem Opened.lone_failed {h h' : Host} {places : List Nat} {i : Nat} {w : Writer}
    (ho : s.Opened h places) (hi : i ∈ places) (hw : s.Feeds w i)
    (hfailed : ∃ v j, s.outlet = [v] ∧ v.bare? = some j ∧ h'.hasFailed j = true) :
    places = [i] ∧ h.kind? i ≠ some .raw ∧ h'.hasFailed i = true := by
  obtain ⟨v, j, houtlet, hbare, hfailed⟩ := hfailed
  have hmem := hw.outlet.mem
  rw [houtlet] at hmem
  obtain rfl : w = v := List.mem_singleton.mp hmem
  obtain rfl : i = j := by
    have hsink := hw.outlet.sink
    rw [Writer.sink?_of_bare hbare] at hsink
    exact (Option.some.inj hsink).symm
  have hlength : places.length = 1 := by
    rw [← List.length_map, ← ho.outlet, houtlet]; rfl
  obtain ⟨k, rfl⟩ := List.length_eq_one_iff.mp hlength
  obtain rfl : i = k := List.mem_singleton.mp hi
  have hkind := (ho.fresh w hw.outlet.mem).bare i hbare
  rw [Host.kind?, ho.sinks] at hkind
  exact ⟨rfl, hkind, hfailed⟩

end Session

/-- **A run that returns without an error has written everything.** Let the outlet of a session be a
new output, with or without tees, to different sinks, whatever they do to a write; the lines of a log
go elsewhere. If a run returns without an error, then it does the same on an output that never fails,
and each sink that keeps what it takes has received all that the run prints there; unless it is the
only sink, it is called straight away, without a buffer, and a write to it has failed. -/
theorem run_accepted {h : Host} {places : List Nat} {s s' : Session} (ho : s.Opened h places)
    (hdistinct : places.Nodup) (hlog : ∀ i ∈ places, s.logger.sink? s.host ≠ some i)
    {c : Context} {n : Nat} (hrun : s.run c n = (.ended none, s')) :
    (s.silent.onMemory.run c n).1 = .ended none ∧
    (s.silent.onMemory.run c n).2.machine = s'.machine ∧
    ∀ i ∈ places, h.Records i → s'.host.received i = h.received i ++ s.silent.fullText c n ∨
      places = [i] ∧ h.kind? i ≠ some .raw ∧ s'.host.hasFailed i = true := by
  have hkept : ∀ w ∈ s.outlet, Error.NoHalt (w.failure? s.host) := fun w hw => by
    rw [(ho.fresh w hw).failure]
    exact Error.noHalt_none
  obtain ⟨hout, hstop, hmachine, hsettles⟩ := Session.settles_of_returns hrun hkept
  refine ⟨(Session.run_onMemory_fst (s := s.silent) rfl c n).trans hout, ?_, fun i hi hrec => ?_⟩
  · rw [hmachine]
    exact (Session.run_snd_of_steady (Session.steady_onMemory (s := s.silent) rfl) c n).machine
  · obtain ⟨w, hw, hprinted⟩ := ho.exists_feeds_of_sink (hlog i hi) hdistinct hi hrec
    by_cases hlone : ∀ v j, s.outlet = [v] → v.bare? = some j → s'.host.hasFailed j = false
    · have hs := hsettles hlone
      have hflushed := hs.flushed none hout fun f hf => by rw [hstop] at hf; cases hf
      have hmem : w ∈ s'.outlet := by rw [hs.tells.outlet]; exact hw.outlet.mem
      left
      calc s'.host.received i
          _ = s'.printed w i := (Session.printed_of_flushed hflushed hmem).symm
          _ = s.printed w i ++ (s.heading ++ (s.execution c 0 n).written) := hs.printed hw
          _ = h.received i ++ s.silent.fullText c n := by rw [hprinted, s.fullText_silent]
    · exact .inr (ho.lone_failed hi hw (by simpa using hlone))

/-- The code `12 print`. -/
def Program.printTwelve : Program where
  code := #[.push 12, { op := .print }]
  targets := #[none, none]

/-- A sink in memory and a raw one, neither of which takes more than some bytes at once. -/
def Host.shortSinks (most : Nat) : Host where
  sinks := #[{ kind := .memory, policy := { write := SinkLimits.reply { short := some most } } },
    { kind := .raw, policy := { write := SinkLimits.reply { short := some most } } }]

/-- A session that writes to the first of them. -/
def Session.shortOutput (most : Nat) : Session :=
  { program := .printTwelve, outlet := [.direct 0], host := .shortSinks most }

/-- A session that writes to both of them. -/
def Session.shortOutputs (most : Nat) : Session where
  program := .printTwelve
  outlet := [.direct 0, .buffered 0]
  host := { Host.shortSinks most with buffers := #[{ sink := 1 }] }

/-- The same session, which logs what it does. -/
def Session.tracedOutputs (most : Nat) : Session :=
  { Session.shortOutputs most with logger := .recorder 0 }

theorem Session.opened_tracedOutputs (most : Nat) :
    (Session.tracedOutputs most).Opened (.shortSinks most) [0, 1] := by
  obtain ⟨s', hopen, ho, -⟩ := Session.opened_of_settings
    (s := { Session.fresh (.shortSinks most) with program := .printTwelve, logger := .recorder 0 })
    rfl 0 [1]
  cases hopen
  exact ho

/-- Three bytes at once are enough for a line. -/
theorem run_accepted_three : ∃ s',
    (Session.tracedOutputs 3).run .never 2 = (.ended none, s') ∧
    s'.host.received 0 = bytes "12\n" ∧ s'.host.received 1 = bytes "12\n" := by
  have hrun : (Session.tracedOutputs 3).run .never 2 =
      (.ended none, ((Session.tracedOutputs 3).run .never 2).2) :=
    Session.run_eq_of_fst (by decide +kernel)
  obtain ⟨-, -, hreceived⟩ :=
    run_accepted (Session.opened_tracedOutputs 3) (by decide) (by decide) hrun
  have htext : (Session.tracedOutputs 3).silent.fullText .never 2 = bytes "12\n" := by
    decide +kernel
  have hall : ∀ i ∈ [0, 1], (Host.shortSinks 3).Records i →
      ((Session.tracedOutputs 3).run .never 2).2.host.received i = bytes "12\n" := by
    intro i hi hrec
    rcases hreceived i hi hrec with h | ⟨hone, -⟩
    · rw [h, htext]; rfl
    · cases hone
  exact ⟨_, hrun, hall 0 (by decide) ⟨_, rfl, by decide⟩, hall 1 (by decide) ⟨_, rfl, by decide⟩⟩

/-- A sink in memory that takes one byte at once. As the only output it loses a byte, and the run
returns without an error; with a tee beside it the same run returns one. -/
theorem run_accepted_fails_alone : ∃ s s' t' : Session,
    Session.new [.single (.program .printTwelve), .single (.output 0)] (.shortSinks 1) =
      .ok () s ∧
    s.run .never 2 = (.ended none, s') ∧ s'.host.received 0 = bytes "1\n" ∧
    s.fullText .never 2 = bytes "12\n" ∧
    Session.new [.single (.program .printTwelve), .single (.output 0), .single (.tee 1)]
      (.shortSinks 1) = .ok () (.shortOutputs 1) ∧
    (Session.shortOutputs 1).run .never 2 = (.ended (some .shortWrite), t') := by
  have hrun : (Session.shortOutput 1).run .never 2 =
      (.ended none, ((Session.shortOutput 1).run .never 2).2) :=
    Session.run_eq_of_fst (by decide +kernel)
  have hboth : (Session.shortOutputs 1).run .never 2 =
      (.ended (some .shortWrite), ((Session.shortOutputs 1).run .never 2).2) :=
    Session.run_eq_of_fst (by decide +kernel)
  exact ⟨.shortOutput 1, _, _, rfl, hrun, by decide +kernel, by decide +kernel, rfl, hboth⟩

end WordStack
