import WordStack.Proofs.Session.Interruption
import WordStack.Proofs.Session.Outputs

/-!
# Runs whose output may fail

A session that writes to honest sinks and logs nothing does what its machine does by itself, until a
write to a sink fails: then it halts. So each sink gets a beginning of the text that the machine
writes, and all of it if no sink fails.

* `Session.Breaks`: a sink has failed, and every sink has a beginning of a text.
* `Session.bears_of_honest`: nothing but the failure of a sink breaks off a run.
* `Session.run_of_honest`: a run comes to what its execution comes to, or breaks off.
* `Session.fullText`: the text of a run.
* `run_delivered`: what the sinks have received, by the text that a run prints on an output that
  never fails.
-/
namespace WordStack

namespace Session

/-- Since `s` a sink of the outlet has failed, and every sink has got a beginning of a text. -/
structure Breaks (text : Bytes) (s s' : Session) : Prop where
  printed : ∀ w i, s.Feeds w i → s'.printed w i <+: s.printed w i ++ text
  failed : ∃ w ∈ s.outlet, ∃ i, w.sink? s.host = some i ∧ s'.host.hasFailed i = true

variable {s s' s₀ : Session} {a b text : Bytes} {x : Execution}

theorem Tells.honest (ht : Tells a s s') (hs : s.Honest) : s'.Honest := by
  refine ⟨?_, ?_, ?_, ?_⟩
  · rw [ht.outlet]; exact hs.outlet
  · rw [ht.outlet]; exact fun w hw => ht.keeps.writer_honest (hs.writers w hw)
  · rw [ht.outlet]
    intro w hw
    rw [ht.keeps.writer_failure?]; exact hs.failures w hw
  · rw [ht.logger]; exact hs.logger

theorem Breaks.widen (hb : Breaks a s s') (hab : a <+: b) : Breaks b s s' := by
  refine ⟨fun w i hw => ?_, hb.failed⟩
  exact (hb.printed w i hw).trans ((List.prefix_append_right_inj _).mpr hab)

theorem Tells.breaks {s'' : Session} (ht : Tells a s s') (hb : Breaks b s' s'') :
    Breaks (a ++ b) s s'' := by
  refine ⟨fun w i hw => ?_, ?_⟩
  · have hprinted := hb.printed w i (ht.feeds hw)
    rwa [ht.printed hw, List.append_assoc] at hprinted
  · obtain ⟨w, hmem, i, hi, hfailed⟩ := hb.failed
    exact ⟨w, ht.outlet ▸ hmem, i, by rw [← ht.keeps.sink?, hi], hfailed⟩

theorem Tells.breaks_of_nil {s'' : Session} (ht : Tells a s s') (hb : Breaks [] s' s'') :
    Breaks a s s'' := by
  have hbreaks := ht.breaks hb
  rwa [List.append_nil] at hbreaks

/-- An outlet whose sinks got a beginning of a text, and of which one has failed. -/
theorem breaks_of_trails {h : Host} (ht : Outlet.Trails s.outlet text s.host h)
    (hf : Outlet.Failed h s.outlet) : Breaks text s { s with host := h } := by
  obtain ⟨w, hmem, i, hi, hfailed, -⟩ := hf
  rw [ht.resembles.sink?] at hi
  exact ⟨fun w i hw => ht.given w i hw.outlet, w, hmem, i, hi, hfailed⟩

/-! ## Parts of a run -/

theorem log_of_absent (hl : s.logger = .absent) (mark text : Bytes) :
    log mark text s = .ok () s := by
  rw [log_eq, hl]; rfl

/-- A halt flushes the outlet, and crashes with its reason whatever the flush says. -/
theorem halt_of_flush (α : Type) (reason : Error) {e : Option Error} {h : Host}
    (hne : s.outlet ≠ []) (hl : s.logger = .absent) (hflush : s.outlet.flush s.host = .ok e h) :
    (halt (some reason) : M α) s = .error (abortOf (.halt reason)) { s with host := h } := by
  have hsettle : settle (some reason) s = .ok (some reason) { s with host := h } := by
    unfold settle
    split
    · next hnil => exact absurd hnil hne
    · simp only [onHost, Act.zoom, hflush]; rfl
  have hlog : Act.shield (log (bytes "#") (bytes "halt error: " ++ reason.message))
      { s with host := h } = .ok () { s with host := h } := by
    have hnone := log_of_absent (s := { s with host := h }) hl (bytes "#")
      (bytes "halt error: " ++ reason.message)
    simp only [Act.shield, hnone]
  unfold halt
  rw [Act.bind_ok hsettle]
  exact Act.bind_ok hlog

section
variable (hs : s.Honest)

include hs

theorem flush_of_honest : ∃ e h, s.outlet.flush s.host = .ok e h ∧ Error.NoHalt e ∧
    (e = none ∧ Tells [] s { s with host := h } ∧ Flushed { s with host := h } ∨
      e.isSome = true ∧ Breaks [] s { s with host := h }) := by
  obtain ⟨e, h, hflush, ht, -, hend⟩ := Outlet.empties_flush hs.outlet hs.writers
  have hnoHalt : Error.NoHalt e := Outlet.noHalt_of_flush hflush fun w hw => by
    rw [hs.failures w hw]
    exact Error.noHalt_none
  refine ⟨e, h, hflush, hnoHalt, ?_⟩
  rcases hend hs.failures with ⟨he, hempties⟩ | ⟨he, hfailed⟩
  · exact .inl ⟨he, tells_of_spreads hempties.spreads, hempties.held⟩
  · exact .inr ⟨he, breaks_of_trails ht hfailed⟩

theorem halt_of_honest (α : Type) (reason : Error) : ∃ s',
    (halt (some reason) : M α) s = .error (abortOf (.halt reason)) s' ∧
      (Tells [] s s' ∧ s'.machine = s.machine ∧ s'.Flushed ∨ Breaks [] s s') := by
  obtain ⟨e, h, hflush, -, hend⟩ := flush_of_honest hs
  refine ⟨_, halt_of_flush α reason hs.outlet hs.logger hflush, ?_⟩
  rcases hend with ⟨-, ht, hflushed⟩ | ⟨-, hb⟩
  · exact .inl ⟨ht, rfl, hflushed⟩
  · exact .inr hb

/-- A write that fails halts the run, and the sinks that did not fail get what waits for them. -/
theorem writeText_of_honest (text : Bytes) :
    (∃ s', writeText text s = .ok () s' ∧ Tells text s s' ∧ s'.machine = s.machine) ∨
    ∃ e s', writeText text s = .error (abortOf (.halt e)) s' ∧ Breaks text s s' := by
  obtain ⟨r, h, hwrite, htakes⟩ :=
    Outlet.takes_writeText hs.outlet (fun w hw => (hs.writers w hw).sinks) hs.failures text
  have hhost : onHost (Outlet.writeText s.outlet text) s = .ok r { s with host := h } := by
    simp only [onHost, Act.zoom, hwrite]
  have hbind : writeText text s = haltIf r.error { s with host := h } := by
    unfold writeText
    rw [Act.get_bind]
    exact Act.bind_ok hhost
  rw [hbind]
  rcases htakes with ⟨rfl, hsp⟩ | ⟨he, ht, hfailed⟩
  · exact .inl ⟨_, rfl, tells_of_spreads hsp, rfl⟩
  · obtain ⟨e, hsome⟩ := Option.isSome_iff_exists.mp he
    obtain ⟨e', h', hflush, ht', hm, -⟩ := Outlet.empties_flush hs.outlet fun w hw =>
      ht.resembles.writer_honest (hs.writers w hw)
    obtain ⟨w, hw, hwfailed⟩ := hfailed
    refine .inr ⟨e, _, ?_, breaks_of_trails (ht.then ht')
      ⟨w, hw, ht'.resembles.failed hm hwfailed⟩⟩
    rw [hsome, haltIf]
    exact halt_of_flush Unit e hs.outlet hs.logger hflush

end

/-! ## A session and an execution -/

/-- The surroundings of an honest session break its run only if a sink has failed. -/
theorem bears_of_honest (hs : s₀.Honest) : s₀.Bears fun text s => Breaks text s₀ s := by
  refine ⟨fun n s out ht => ?_, fun text s out ht => ?_, fun reason s out ht => ?_,
    fun hab hb => hb.widen hab⟩
  · refine ⟨s, ?_, ht⟩
    rw [note, Act.get_bind, (ht.honest hs).logger]; rfl
  · rcases writeText_of_honest (ht.honest hs) text with ⟨s₁, hwrite, ht₁⟩ | ⟨e, s₁, hwrite, hb⟩
    · exact .inl ⟨s₁, hwrite, ht.trans ht₁.1⟩
    · exact .inr ⟨e, s₁, hwrite, ht.breaks hb⟩
  · obtain ⟨s', hhalt, hend⟩ := halt_of_honest (ht.honest hs) Unit reason
    rcases hend with ⟨ht', hm, hflushed⟩ | hb
    · exact .inl ⟨s', hhalt, hm, ht.then ht', fun _ _ => hflushed⟩
    · exact .inr ⟨reason, s', hhalt, ht.breaks_of_nil hb⟩

/-! ## Runs -/

section
variable (hs : s.Honest)

include hs

theorem start_of_honest :
    (∃ s', start s = .ok () s' ∧ Tells s.heading s s' ∧ s'.machine = s.machine) ∨
    ∃ e s', start s = .error (abortOf (.halt e)) s' ∧ Breaks s.heading s s' := by
  unfold start heading
  rw [Act.get_bind]
  cases s.listing with
  | none => exact .inl ⟨s, log_of_absent hs.logger _ _, tells_setMachine s s.machine, rfl⟩
  | some coloured =>
    rcases writeText_of_honest hs (Listing.render s.program coloured) with
      ⟨s₁, hwrite, ht, hm⟩ | ⟨e, s₁, hwrite, hb⟩
    · have hlog := log_of_absent (ht.honest hs).logger (bytes "#")
        (bytes "run " ++ Decimal.ofNat s.program.size ++ bytes " instructions")
      exact .inl ⟨s₁, (Act.bind_ok hwrite).trans hlog, ht, hm⟩
    · exact .inr ⟨e, s₁, Act.bind_error hwrite, hb⟩

theorem finish_of_honest :
    (∃ s', finish s = .ok none s' ∧ Tells [] s s' ∧ s'.machine = s.machine ∧ s'.Flushed) ∨
    ∃ e s', finish s = .ok (some e) s' ∧ Error.NoHalt (some e) ∧ Breaks [] s s' := by
  obtain ⟨e, h, hflush, hnoHalt, hend⟩ := flush_of_honest hs
  have hfinish : finish s = .ok e { s with host := h } := by
    have hlog := log_of_absent hs.logger (bytes "#")
      (bytes "done, stack:" ++ Note.showStack s.machine.stack)
    rw [finish, Act.get_bind, Act.bind_ok hlog]
    simp only [onHost, Act.zoom, hflush]
  rcases hend with ⟨rfl, ht, hflushed⟩ | ⟨he, hb⟩
  · exact .inl ⟨_, hfinish, ht, rfl, hflushed⟩
  · obtain ⟨e, rfl⟩ := Option.isSome_iff_exists.mp he
    exact .inr ⟨e, _, hfinish, hnoHalt, hb⟩

theorem proceed_of_honest (context : Context) (fuel asked : Nat) :
    (∃ s', contained (proceed context fuel asked) s =
        (outcomeOf s.program (s.execution context asked fuel), s') ∧
      Settles s (s.execution context asked fuel) (s.execution context asked fuel).written s') ∨
    ∃ e s', contained (proceed context fuel asked) s = (.ended (some e), s') ∧
      Breaks (s.execution context asked fuel).written s s' := by
  have hself : Shows s { machine := s.machine } s := shows_of_tells (tells_setMachine s s.machine)
  have hindented : indented (execute context fuel asked) s = execute context fuel asked s := by
    rw [indented, hs.logger]; rfl
  have hexecute := execute_reaches (bears_of_honest hs) context fuel asked hself rfl
  rw [← hindented] at hexecute
  refine proceed_reaches hexecute fun s₁ hshows => ?_
  rcases finish_of_honest (hshows.tells.honest hs) with h | ⟨e, s₂, hfinish, hnoHalt, hb⟩
  · exact .inl h
  · exact .inr ⟨e, s₂, hfinish, hnoHalt, hshows.tells.breaks_of_nil hb⟩

/-- What a run of an honest session comes to: what its execution comes to, or a halt because a sink
has failed. -/
theorem run_of_honest (context : Context) (fuel : Nat) :
    (∃ s', s.run context fuel = (outcomeOf s.program (s.execution context 0 fuel), s') ∧
      Settles s (s.execution context 0 fuel)
        (s.heading ++ (s.execution context 0 fuel).written) s') ∨
    ∃ e s', s.run context fuel = (.ended (some e), s') ∧
      Breaks (s.heading ++ (s.execution context 0 fuel).written) s s' := by
  rcases start_of_honest hs with ⟨s₁, hstart, ht, hm⟩ | ⟨e, s₁, hstart, hb⟩
  · obtain ⟨hrun, hexecution⟩ := run_of_start hstart ht hm context fuel
    have hproceed := proceed_of_honest (ht.honest hs) context fuel 0
    rw [ht.program, hexecution, ← hrun] at hproceed
    rcases hproceed with ⟨s₂, hend, hsettles⟩ | ⟨e, s₂, hend, hb⟩
    · exact .inl ⟨s₂, hend, hsettles.behind ht⟩
    · exact .inr ⟨e, s₂, hend, ht.breaks hb⟩
  · refine .inr ⟨e, s₁, contained_of_halt (Act.bind_error hstart), hb.widen ?_⟩
    exact List.prefix_append _ _

end

/-! ## The text of a run -/

/-- The same session with nothing but an output in memory, which never fails. -/
def onMemory (s : Session) : Session :=
  { s with outlet := [.direct 0], host := { sinks := #[{ kind := .memory }] } }

/-- What a run of the session with so many instructions prints on an output that never fails. -/
def fullText (s : Session) (c : Context) (n : Nat) : Bytes := (s.onMemory.run c n).2.host.received 0

/-- The text of a run is whole after `n` instructions, and all sinks that `s` feeds have received it
in `s'`. -/
structure DeliversAll (s : Session) (c : Context) (n : Nat) (s' : Session) : Prop where
  whole : ∀ m, n ≤ m → s.fullText c m = s.fullText c n
  received : ∀ w i, s.Feeds w i → s'.host.received i = s.printed w i ++ s.fullText c n

section
variable (hl : s.logger = .absent)

include hl

theorem steady_onMemory : s.onMemory.Steady := by
  refine ⟨by simp [onMemory], ?_, fun h => ?_⟩
  · intro w hw
    obtain rfl : w = .direct 0 := by simpa [onMemory] using hw
    refine ⟨?_, (fun i p hi => nomatch hi), rfl⟩
    intro i hi p hp past data
    cases hi; cases hp; rfl
  · rw [onMemory, hl] at h; cases h

theorem feeds_onMemory : s.onMemory.Feeds (.direct 0) 0 := by
  refine ⟨⟨by simp [onMemory], rfl, ⟨.memory, rfl, by decide⟩, rfl⟩, ?_⟩
  rw [onMemory, hl]
  exact fun h => nomatch h

theorem run_onMemory_fst (c : Context) (n : Nat) :
    (s.onMemory.run c n).1 = outcomeOf s.program (s.execution c 0 n) :=
  run_fst_of_steady (steady_onMemory hl) c n

theorem fullText_eq (c : Context) (n : Nat) :
    s.fullText c n = s.heading ++ (s.execution c 0 n).written := by
  have hprinted := (run_snd_of_steady (steady_onMemory hl) c n).printed (feeds_onMemory hl)
  have hreceived : (s.onMemory.run c n).2.printed (.direct 0) 0 = s.fullText c n :=
    List.append_nil _
  rw [← hreceived, hprinted]
  rfl

theorem prefix_fullText (c : Context) {m n : Nat} (h : n ≤ m) :
    s.fullText c n <+: s.fullText c m := by
  obtain ⟨d, rfl⟩ := Nat.le.dest h
  rw [fullText_eq hl, fullText_eq hl, execution, execution, Execution.after_add]
  exact (List.prefix_append_right_inj _).mpr (Execution.prefix_after c (0 + n) d _)

theorem fullText_of_isOver {c : Context} {m n : Nat}
    (hover : (s.execution c 0 n).isOver s.program = true) (h : n ≤ m) :
    s.fullText c m = s.fullText c n := by
  rw [fullText_eq hl, fullText_eq hl, execution, execution, Execution.after_eq_of_isOver hover h]

/-- A run that has ended, and not in a fault, has left nothing waiting. -/
theorem Settles.deliversAll {c : Context} {n : Nat} {error : Option Error}
    (h : s.Settles (s.execution c 0 n) (s.heading ++ (s.execution c 0 n).written) s')
    (hout : outcomeOf s.program (s.execution c 0 n) = .ended error)
    (hfault : ∀ f, (s.execution c 0 n).stop ≠ some (.fault f)) : s.DeliversAll c n s' := by
  refine ⟨fun m hm => fullText_of_isOver hl (isOver_of_outcomeOf hout) hm, fun w i hw => ?_⟩
  rw [← printed_of_flushed (h.flushed error hout hfault)
    (by rw [h.tells.outlet]; exact hw.outlet.mem), h.printed hw, fullText_eq hl]

end

end Session

/-- **Output is delivered as a beginning of the text, and all of it if nothing fails.** Let the
sinks of a session be honest: they never crash, and return an error whenever they take less than
they are given. Whatever happens in a run, each of them has received a beginning of the text that
the run prints on an output that never fails, behind what was printed to it before. If the run
returns without an error, each has received all of it. So it is if the run halts and no write to a
sink has failed. -/
theorem run_delivered {code : List Instruction} {s s' : Session}
    (hp : Program.resolve code = .ok s.program) (hknown : ∀ i ∈ code, i.op ∈ Op.known)
    (hlow : 0 ≤ s.machine.next) (hhigh : s.machine.next ≤ s.program.size) (hs : s.Honest)
    {c : Context} {n : Nat} {outcome : Outcome} (hrun : s.run c n = (outcome, s')) :
    (∀ m, n ≤ m → s.fullText c n <+: s.fullText c m) ∧
    (∀ w i, s.Feeds w i → s'.host.received i <+: s.printed w i ++ s.fullText c n) ∧
    (outcome = .ended none → (s.onMemory.run c n).1 = .ended none ∧ s.DeliversAll c n s') ∧
    ((∀ w ∈ s.outlet, ∀ i, w.sink? s.host = some i → s'.host.hasFailed i = false) →
      ∀ error, outcome = .ended error →
        (s.onMemory.run c n).1 = .ended error ∧ s.DeliversAll c n s') := by
  have hfault := Session.execution_not_fault hp hknown hlow hhigh c n
  have hl := hs.logger
  refine ⟨fun m hm => Session.prefix_fullText hl c hm, ?_⟩
  rw [Session.run_onMemory_fst hl, Session.fullText_eq hl]
  rcases Session.run_of_honest hs c n with ⟨s₁, hrun', hsettles⟩ | ⟨e, s₁, hrun', hb⟩
  · rw [hrun] at hrun'
    obtain ⟨rfl, rfl⟩ := Prod.mk.inj hrun'
    refine ⟨?_, ?_, ?_⟩
    · intro w i hw
      rw [← hsettles.printed hw]
      exact List.prefix_append _ _
    · intro hout
      exact ⟨hout, hsettles.deliversAll hl hout hfault⟩
    · intro _ error hout
      exact ⟨hout, hsettles.deliversAll hl hout hfault⟩
  · rw [hrun] at hrun'
    obtain ⟨rfl, rfl⟩ := Prod.mk.inj hrun'
    refine ⟨?_, (fun hout => nomatch hout), ?_⟩
    · intro w i hw
      exact (List.prefix_append _ _).trans (hb.printed w i hw)
    · intro hnone
      obtain ⟨w, hw, i, hi, hfailed⟩ := hb.failed
      rw [hnone w hw i hi] at hfailed
      cases hfailed

/-- The code `12 print 34 print`. -/
def Program.printBoth : Program where
  code := #[.push 12, { op := .print }, .push 34, { op := .print }]
  targets := #[none, none, none, none]

/-- Three sinks; the second one has room for four bytes. -/
def Host.threeSinks : Host where
  sinks := #[{ kind := .raw },
    { kind := .memory,
      policy := { write := SinkLimits.reply { failPast := some (4, bytes "full") } } },
    { kind := .flushing }]

/-- A session that writes to all of them. -/
def Session.threeOutputs : Session where
  program := .printBoth
  outlet := [.buffered 0, .direct 1, .flushing 2]
  host := { Host.threeSinks with buffers := #[{ sink := 0 }] }

theorem Host.honest_threeSinks (i : Nat) : Host.threeSinks.Honest i := by
  intro p hp past data
  match i with
  | 0 | 2 => cases hp; exact ⟨_, _, rfl, fun hlt => absurd hlt (Nat.lt_irrefl _)⟩
  | 1 => cases hp; exact SinkLimits.reply_of_failPast 4 (bytes "full") past data
  | _ + 3 => cases hp

theorem Host.records_threeSinks {i : Nat} (hi : i < 3) : Host.threeSinks.Records i := by
  match i with
  | 0 | 1 | 2 => exact ⟨_, rfl, by decide⟩

theorem Session.opened_threeOutputs :
    Session.threeOutputs.Opened .threeSinks [0, 1, 2] := by
  obtain ⟨s', hopen, ho, -⟩ := Session.opened_of_settings
    (s := { Session.fresh .threeSinks with program := .printBoth }) rfl 0 [1, 2]
  cases hopen
  exact ho

theorem Session.honest_threeOutputs : Session.threeOutputs.Honest := by
  refine Session.opened_threeOutputs.honest (by simp) rfl (fun i _ => Host.honest_threeSinks i) ?_
  intro i _ p hp past
  match i with
  | 0 | 1 | 2 => cases hp; rfl
  | _ + 3 => cases hp

/-- The second sink fails in the second number. The other ones have then got what was written to
them before. -/
theorem run_delivered_full : ∃ s',
    Session.new [.single (.program .printBoth), .single (.output 0), .single (.tee 1),
      .single (.tee 2)] .threeSinks = .ok () .threeOutputs ∧
    Session.threeOutputs.run .never 4 = (.ended (some (.external (bytes "full"))), s') ∧
    s'.host.received 1 = bytes "12\n3" ∧
    (∀ i < 3, s'.host.received i <+: Session.threeOutputs.fullText .never 4) ∧
    Session.threeOutputs.fullText .never 4 = bytes "12\n34\n" := by
  have hp : Program.resolve Program.printBoth.code.toList = .ok .printBoth := rfl
  have hrun : Session.threeOutputs.run .never 4 = (.ended (some (.external (bytes "full"))),
      (Session.threeOutputs.run .never 4).2) := Session.run_eq_of_fst (by decide +kernel)
  obtain ⟨-, hbeginning, -⟩ :=
    run_delivered hp (by decide) (by decide) (by decide) Session.honest_threeOutputs hrun
  refine ⟨_, rfl, hrun, by decide +kernel, fun i hi => ?_, by decide +kernel⟩
  have hmem : i ∈ [0, 1, 2] := by simp; omega
  obtain ⟨w, hw, hprinted⟩ := Session.opened_threeOutputs.exists_feeds rfl (by decide) hmem
    (Host.records_threeSinks hi)
  have hnothing : Host.threeSinks.received i = [] := rfl
  have hprefix := hbeginning w i hw
  rw [hprinted, hnothing, List.nil_append] at hprefix
  exact hprefix

end WordStack
