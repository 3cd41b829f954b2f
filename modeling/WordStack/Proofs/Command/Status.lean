import WordStack.Proofs.Command.Prepared

/-!
# What the exit status of the command tells

The status is the exit code of the journal, which the lines of the trace, the lines of a dump and two
reports of errors set one after the other. A report of an error always sets 1, and nothing that comes
behind it sets anything else, so the status is 1 whenever an error was reported; otherwise nothing but
the trace was logged, and the status tells whether a line of it was lost.

* `Job.announce_logged`, `Session.close_logged`, `Job.conclude_logged`: what comes behind a run.
* `Command.Course`: all that happens once the file is compiled. `Command.Trouble`: what can go wrong.
* `runUnder_status`: what the status tells, and which lines were logged.
-/
namespace WordStack

open Act (stateOf)
open Host (Logged LogsTo CodeTells)

/-! ## Behind a run -/

/-- A text with something in it has a line. -/
theorem LineSplitter.lines_ne_nil {text : Bytes} (htext : text ≠ []) :
    (LineSplitter.write {} text).1 ++ (LineSplitter.write {} text).2.close.1 ≠ [] := by
  obtain ⟨x, rest, rfl⟩ := List.exists_cons_of_ne_nil htext
  obtain ⟨first, later, hlater⟩ := List.exists_cons_of_ne_nil
    (List.splitOnP_ne_nil (· == lineFeed) rest)
  unfold LineSplitter.write lines
  rw [List.splitOnP_cons_eq_if_modifyHead, hlater]
  by_cases hx : (x == lineFeed) = true
  · simp [hx]
  · cases later with
    | nil => simp [hx, LineSplitter.close]
    | cons next later => simp [hx]

theorem Job.dumpLines_ne_nil (s : Session) : Job.dumpLines s ≠ [] := by
  have htext : Dump.render s.machine s.program ≠ [] := by
    unfold Dump.render
    simp only [List.append_assoc]
    exact List.append_ne_nil_of_left_ne_nil (by decide) _
  unfold Job.dumpLines
  generalize Dump.render s.machine s.program = text at htext
  exact LineSplitter.lines_ne_nil htext

namespace Host

variable {j : Nat} {h : Host} (hl : h.LogsTo j)

include hl

/-- The report of an error sets the exit code to 1, whether the line could be written or not. -/
theorem reportIf_logged (error : Option Error) : ∃ h', reportIf error h = .ok () h' ∧
    h.Logged j (.replicate error.toList.length (bytes "ERROR")) h' ∧
    h'.journal.exitCode = if error.isSome then 1 else h.journal.exitCode := by
  cases error with
  | none => exact ⟨h, rfl, Logged.refl j h, rfl⟩
  | some e => exact reportError_logged hl (bytes "%v") [.text e.message]

theorem reportDump_logged (dump : List Bytes) : ∃ h', Job.reportDump dump h = .ok () h' ∧
    h.Logged j (.replicate dump.length (bytes "DUMP")) h' := by
  induction dump generalizing h with
  | nil => exact ⟨h, rfl, Logged.refl j h⟩
  | cons line rest ih =>
    obtain ⟨h₁, failed, hreport, hlogged, -, -⟩ := report_logged hl (bytes "DUMP") (by decide)
      (bytes "%s") [.text line]
    obtain ⟨h₂, hrest, hlogged'⟩ := ih (hlogged.logsTo hl)
    exact ⟨h₂, (Act.bind_ok hreport).trans hrest, hlogged.trans hlogged'⟩

end Host

/-- Closing sinks returns, and leaves the log alone. -/
theorem Host.closeAll_logged (j : Nat) (places : List Nat) (h : Host) : ∃ e h',
    attemptAll closeSink places h = .ok e h' ∧ h.Logged j [] h' ∧ h'.journal = h.journal := by
  induction places generalizing h with
  | nil => exact ⟨none, h, rfl, Logged.refl j h, rfl⟩
  | cons i rest ih =>
    obtain ⟨e₁, h₁, hclose⟩ : ∃ e h', closeSink i h = .ok e h' := by
      unfold closeSink
      split
      · exact ⟨_, _, rfl⟩
      · exact ⟨_, _, rfl⟩
    obtain ⟨hlogged, hjournal, -⟩ := logged_of_closeSink hclose j
    obtain ⟨e₂, h₂, hrest, hlogged', hjournal'⟩ := ih h₁
    refine ⟨e₁ <|> e₂, h₂, ?_, hlogged.trans hlogged', hjournal'.trans hjournal⟩
    rw [attemptAll, Act.bind_ok hclose, Act.bind_ok hrest]; rfl

theorem Session.close_logged (j : Nat) (s : Session) : ∃ e s', close s = .ok e s' ∧
    s.host.Logged j [] s'.host ∧ s'.host.journal = s.host.journal := by
  obtain ⟨e, h', hclose, hlogged, hjournal⟩ := Host.closeAll_logged j s.closers s.host
  refine ⟨e, { s with closers := [], host := h' }, ?_, hlogged, hjournal⟩
  unfold close
  rw [Act.get_bind, Act.bind_ok (onHost_ok hclose)]
  rfl

namespace Job

variable {j : Nat} {s : Session} (hl : s.host.LogsTo j) (job : Job)

include hl

/-- The lines of a dump come first, and only behind a run that failed and was traced. -/
theorem announce_logged (error : Option Error) : ∃ s' d, job.announce error s = .ok () s' ∧
    s.host.Logged j (.replicate d (bytes "DUMP") ++
      .replicate error.toList.length (bytes "ERROR")) s'.host ∧
    (0 < d ↔ job.flags.trace = true ∧ error ≠ none) ∧
    s'.host.journal.exitCode = if error.isSome then 1 else s.host.journal.exitCode := by
  cases hdump : error.isSome && job.flags.trace with
  | false =>
    obtain ⟨h', hreport, hlogged, hcode⟩ := Host.reportIf_logged hl error
    refine ⟨{ s with host := h' }, 0, ?_, hlogged, ?_, hcode⟩
    · unfold announce
      rw [hdump]
      exact Session.onHost_ok hreport
    · cases error <;> simp_all
  | true =>
    obtain ⟨h₁, hdumped, hlogged⟩ := Host.reportDump_logged hl (dumpLines s)
    obtain ⟨h₂, hreport, hlogged', hcode⟩ := Host.reportIf_logged (hlogged.logsTo hl) error
    have hsome : error.isSome = true ∧ job.flags.trace = true := by simpa using hdump
    refine ⟨{ s with host := h₂ }, (dumpLines s).length, ?_, hlogged.trans hlogged', ?_, ?_⟩
    · unfold announce
      rw [hdump]
      simp only [if_true, Act.get_bind]
      rw [Act.bind_ok (Session.onHost_ok hdumped)]
      exact Session.onHost_ok hreport
    · simp [List.length_pos_iff, dumpLines_ne_nil, hsome.2, Option.isSome_iff_ne_none.mp hsome.1]
    · simpa [hsome.1] using hcode

/-- The exit code behind a run is 1 if the run or the closing failed, and else the one of the run. -/
theorem conclude_logged (error : Option Error) : ∃ s₁ closeError s₂ code s' d,
    job.announce error s = .ok () s₁ ∧ Session.close s₁ = .ok closeError s₂ ∧
    job.conclude error s = .ok code s' ∧
    s.host.Logged j (.replicate d (bytes "DUMP") ++
      .replicate (error.toList.length + closeError.toList.length) (bytes "ERROR")) s'.host ∧
    (0 < d ↔ job.flags.trace = true ∧ error ≠ none) ∧
    code = if error.isSome || closeError.isSome then 1 else s.host.journal.exitCode := by
  obtain ⟨s₁, d, hannounce, hlogged₁, hdump, hcode₁⟩ := announce_logged hl job error
  obtain ⟨closeError, s₂, hclose, hlogged₂, hjournal⟩ := s₁.close_logged j
  have hlogged := hlogged₁.trans hlogged₂
  obtain ⟨h₃, hreport, hlogged₃, hcode₃⟩ := Host.reportIf_logged (hlogged.logsTo hl) closeError
  refine ⟨s₁, closeError, s₂, h₃.journal.exitCode, { s₂ with host := h₃ }, d, hannounce, hclose, ?_,
    ?_, hdump, ?_⟩
  · unfold conclude
    rw [Act.bind_ok hannounce, Act.bind_ok hclose,
      Act.bind_ok (Session.onHost_ok hreport)]
    rfl
  · have hall := hlogged.trans hlogged₃
    rwa [List.append_nil, List.append_assoc, List.replicate_append_replicate] at hall
  · -- Lines of a dump can set the code to 2, but then an error is reported behind them.
    rw [hcode₃, hjournal, hcode₁]
    cases error <;> cases closeError <;> rfl

end Job

/-! ## The command -/

namespace Command

/-- All that happens once the file is compiled, up to closing. -/
structure Course (c : Command) (flags : Flags) (path : Bytes) (context : Job → Context) (fuel : Nat)
    (h : Host) where
  program : Program
  /-- The session before the run, behind it, behind the reports about it, and closed. -/
  session : Session
  ran : Session
  told : Session
  closed : Session
  /-- What the run returns. -/
  error : Option Error
  /-- What closing returns. -/
  closeError : Option Error
  compiles : c.compileFile path = .ok program
  starts : Session.new (c.settings flags program) h = .ok () session
  runs : session.run (context ⟨flags, session⟩) fuel = (.ended error, ran)
  announces : Job.announce ⟨flags, session⟩ error ran = .ok () told
  closes : Session.close told = .ok closeError closed

variable {c : Command} {flags : Flags} {path : Bytes} {context : Job → Context} {fuel : Nat}
  {h : Host}

/-- There is at most one course. -/
theorem Course.unique (x y : c.Course flags path context fuel h) : x = y := by
  obtain ⟨_, _, _, _, _, _, _, hx₁, hx₂, hx₃, hx₄, hx₅⟩ := x
  obtain ⟨_, _, _, _, _, _, _, hy₁, hy₂, hy₃, hy₄, hy₅⟩ := y
  cases hx₁.symm.trans hy₁
  cases hx₂.symm.trans hy₂
  cases hx₃.symm.trans hy₃
  cases hx₄.symm.trans hy₄
  cases hx₅.symm.trans hy₅
  rfl

theorem Course.exists_iff (x : c.Course flags path context fuel h)
    {P : c.Course flags path context fuel h → Prop} : (∃ y, P y) ↔ P x :=
  ⟨fun ⟨y, hy⟩ => x.unique y ▸ hy, fun hx => ⟨x, hx⟩⟩

/-- What can go wrong: the file cannot be opened, it does not compile, the run returns an error, or
closing does. -/
inductive Trouble (c : Command) (flags : Flags) (path : Bytes) (context : Job → Context) (fuel : Nat)
    (h : Host) : Prop where
  | opening (e : Error) (hopen : c.openFile path = .error e)
  | compiling (source : Source) (e : Error) (hopen : c.openFile path = .ok source)
      (hcompile : Program.compile source = .error e)
  | running (x : c.Course flags path context fuel h) (hrun : x.error ≠ none)
  | closing (x : c.Course flags path context fuel h) (hclose : x.closeError ≠ none)

theorem trouble_of_compileFile {e : Error} (hfile : c.compileFile path = .error e) :
    c.Trouble flags path context fuel h := by
  unfold compileFile at hfile
  cases hopen : c.openFile path with
  | error e => exact .opening e hopen
  | ok source =>
    cases hcompile : Program.compile source with
    | error e => exact .compiling source e hopen hcompile
    | ok p => simp [hopen, hcompile] at hfile

theorem Course.trouble_iff (x : c.Course flags path context fuel h) :
    c.Trouble flags path context fuel h ↔ x.error ≠ none ∨ x.closeError ≠ none := by
  constructor
  · intro ht
    have hfile := x.compiles
    unfold compileFile at hfile
    cases ht with
    | opening e hopen => simp [hopen] at hfile
    | compiling source e hopen hcompile => simp [hopen, hcompile] at hfile
    | running y hrun => rw [x.unique y]; exact .inl hrun
    | closing y hclose => rw [x.unique y]; exact .inr hclose
  · intro ht
    cases ht with
    | inl hrun => exact .running x hrun
    | inr hclose => exact .closing x hclose

section
variable {args operands : List Bytes} {j : Nat}
variable (hargs : Flags.parse {} args = .ok (flags, path :: operands))

include hargs

/-- A file that is not compiled is reported, and nothing else happens. -/
theorem runUnder_of_compileFile {e : Error} (hl : h.LogsTo j)
    (hfile : c.compileFile path = .error e) (context : Job → Context) (fuel : Nat) :
    ∃ h', c.runUnder context fuel args h = .ok (some 1) h' ∧ h.Logged j [bytes "ERROR"] h' ∧
      ∀ i, i ≠ j → h'.sinks[i]? = h.sinks[i]? ∧ h'.received i = h.received i := by
  obtain ⟨h', hreport, hlogged, hcode⟩ := Host.reportIf_logged hl (some e)
  have hprepare : c.prepare args h = .ok (.error 1) h' := by
    unfold prepare
    simp only [hargs, hfile]
    rw [Act.bind_ok hreport, Act.get_bind, hcode]
    rfl
  refine ⟨h', ?_, hlogged, fun i hi => ?_⟩
  · unfold runUnder
    rw [Act.bind_ok hprepare]
    rfl
  · have hspares : h.Spares ⟨(· = j), fun _ => False, True⟩ (stateOf (Host.reportIf (some e) h)) := by
      have hout : ∀ k, h.journal.output = some k → k = j := fun k hk => by
        rw [hl.output] at hk; exact (Option.some.inj hk).symm
      exact Host.spares_bind (Host.report_spares trivial hout _ _ _)
        fun _ h₁ _ _ => Host.spares_journal trivial h₁ rfl
    rw [hreport] at hspares
    exact ⟨hspares.sinks i hi, hspares.received hi⟩

/-- The course of a command whose file is compiled and whose run ends. The code is 1 if the run or the
closing failed, and else it tells whether a line of the trace was lost. -/
theorem Course.exists_runUnder (hl : h.LogsTo j) (hcode : h.CodeTells j) (hstdout : c.stdout ≠ j)
    (hextra : ∀ x ∈ SettingTree.flattenAll c.extra, x.Beside h j) {p : Program}
    (hfile : c.compileFile path = .ok p)
    (hends : ∀ s, Session.new (c.settings flags p) h = .ok () s →
      ∃ error s', s.run (context ⟨flags, s⟩) fuel = (.ended error, s')) :
    ∃ (x : c.Course flags path context fuel h) (code : Nat) (h' : Host) (n d k : Nat),
      c.runUnder context fuel args h = .ok (some code) h' ∧
      h.Logged j (.replicate n (bytes "TRACE") ++ .replicate d (bytes "DUMP") ++
        .replicate k (bytes "ERROR")) h' ∧
      (0 < d ↔ flags.trace = true ∧ x.error ≠ none) ∧
      (0 < k ↔ x.error ≠ none ∨ x.closeError ≠ none) ∧
      code = if x.error.isSome || x.closeError.isSome then 1
        else if x.ran.host.hasFailed j then 2 else 0 := by
  obtain ⟨s, hnew, hprepared⟩ := Session.exists_prepared hcode hstdout hextra flags p
  obtain ⟨error, ran, hrun⟩ := hends s hnew
  -- Behind the run the log holds lines of the trace only, so the code there is 2 or 0.
  have htracing := hprepared.toTracing.run hl (context ⟨flags, s⟩) fuel
  rw [hrun] at htracing
  obtain ⟨n, hlogged⟩ := htracing.logged
  obtain ⟨told, closeError, closed, code, s', d, hannounce, hclose, hconclude, hlogged', hdump,
    hfinal⟩ := Job.conclude_logged (hlogged.logsTo hl) ⟨flags, s⟩ error
  refine ⟨⟨p, s, ran, told, closed, error, closeError, hfile, hnew, hrun, hannounce, hclose⟩, code,
    s'.host, n, d, error.toList.length + closeError.toList.length, ?_, ?_, hdump, ?_, ?_⟩
  · have hprepare : c.prepare args h = .ok (.ok ⟨flags, s⟩) s.host := by
      unfold prepare
      simp only [hargs, hfile, hnew]
    unfold runUnder
    rw [Act.bind_ok hprepare]
    simp only [hrun, hconclude]
  · rw [List.append_assoc]; exact hlogged.trans hlogged'
  · cases error <;> cases closeError <;> simp
  · rw [hfinal, htracing.code]

end

end Command

open Command (Course)

/-- What the exit status tells, for a journal that nothing was logged to before, on a sink `j` of its
own that may fail but does not crash: 1 if there was trouble, else 2 if a line of the trace was lost,
else 0. Unless a file is compiled, nothing is written to the standard output. As long as the sink
takes all lines, it takes those of the trace, then those of a dump if the run failed and was traced,
and then those of errors if the status is 1. -/
theorem runUnder_status {c : Command} {flags : Flags} {path : Bytes} {context : Job → Context}
    {fuel : Nat} {h : Host} {args operands : List Bytes} {j : Nat}
    (hargs : Flags.parse {} args = .ok (flags, path :: operands))
    (hjournal : h.journal = { output := some j }) (hcalm : h.Calm j) (hnew : h.hasFailed j = false)
    (hstdout : c.stdout ≠ j) (hextra : ∀ x ∈ SettingTree.flattenAll c.extra, x.Beside h j)
    (hends : ∀ p s, c.compileFile path = .ok p → Session.new (c.settings flags p) h = .ok () s →
      ∃ error s', s.run (context ⟨flags, s⟩) fuel = (.ended error, s')) :
    ∃ code h', c.runUnder context fuel args h = .ok (some code) h' ∧
      (code = 1 ↔ c.Trouble flags path context fuel h) ∧
      (code = 2 ↔ ¬ c.Trouble flags path context fuel h ∧
        ∃ x : c.Course flags path context fuel h, x.ran.host.hasFailed j = true) ∧
      (code = 0 ↔ ¬ c.Trouble flags path context fuel h ∧
        ∃ x : c.Course flags path context fuel h, x.ran.host.hasFailed j = false) ∧
      ((∀ p, c.compileFile path ≠ .ok p) → h'.sinks[c.stdout]? = h.sinks[c.stdout]? ∧
        h'.received c.stdout = h.received c.stdout) ∧
      (h.Records j → h'.hasFailed j = false → ∃ n d k new, h'.writesTo j = h.writesTo j ++ new ∧
        List.Forall₂ Host.HasLevel (.replicate n (bytes "TRACE") ++ .replicate d (bytes "DUMP") ++
          .replicate k (bytes "ERROR")) new ∧
        (0 < k ↔ code = 1) ∧
        (0 < d ↔ flags.trace = true ∧
          ∃ x : c.Course flags path context fuel h, x.error ≠ none)) := by
  have hl : h.LogsTo j := ⟨by rw [hjournal], by rw [hjournal], hcalm⟩
  have hcode : h.CodeTells j := by rw [CodeTells, hjournal, hnew]; rfl
  cases hfile : c.compileFile path with
  | error e =>
    have htrouble : c.Trouble flags path context fuel h := Command.trouble_of_compileFile hfile
    have hnone : c.Course flags path context fuel h → False := fun x => by
      have hx := x.compiles
      rw [hfile] at hx; cases hx
    obtain ⟨h', hrun, hlogged, hrest⟩ :=
      Command.runUnder_of_compileFile hargs hl hfile context fuel
    refine ⟨1, h', hrun, ?_, ?_, ?_, fun _ => hrest _ hstdout, fun hrec hf => ?_⟩
    · simp [htrouble]
    · simp [htrouble]
    · simp [htrouble]
    · obtain ⟨new, hnew, hlevels⟩ := hlogged.lines hrec hf
      exact ⟨0, 0, 1, new, hnew, hlevels, by simp, by simpa using fun _ x => (hnone x).elim⟩
  | ok p =>
    obtain ⟨x, code, h', n, d, k, hrun, hlogged, hdump, herror, hstatus⟩ :=
      Course.exists_runUnder hargs hl hcode hstdout hextra hfile (hends p · hfile)
    have htrouble : c.Trouble flags path context fuel h ↔
        (x.error.isSome || x.closeError.isSome) = true := by
      simp [x.trouble_iff, Option.isSome_iff_ne_none]
    have hone : code = 1 ↔ c.Trouble flags path context fuel h := by
      rw [htrouble, hstatus]
      split
      · simp [*]
      · split <;> simp [*]
    refine ⟨code, h', hrun, hone, ?_, ?_, fun hno => absurd rfl (hno p), fun hrec hf => ?_⟩
    · rw [htrouble, x.exists_iff, hstatus]
      split <;> simp [*]
    · rw [htrouble, x.exists_iff, hstatus]
      split <;> simp [*]
    · obtain ⟨new, hnew, hlevels⟩ := hlogged.lines hrec hf
      refine ⟨n, d, k, new, hnew, hlevels, ?_, ?_⟩
      · rw [herror, hone, x.trouble_iff]
      · rw [hdump, x.exists_iff]

/-- A command that knows one file and copies what it prints. -/
def Command.printOne : Command where
  stdout := 0
  stderr := 1
  extra := [.single (.tee 2)]
  openFile _ := .ok ⟨bytes "1 print", none⟩

/-- The journal writes to a sink that takes three bytes at once. -/
def Host.shortLog : Host where
  sinks := #[{ kind := .memory },
    { kind := .memory, policy := { write := SinkLimits.reply { short := some 3 } } },
    { kind := .raw, closable := true }]
  journal := { output := some 1 }

theorem Host.calm_shortLog : Host.shortLog.Calm 1 := by
  intro p hp past data
  cases hp
  exact ⟨_, _, rfl⟩

theorem Command.compileFile_printOne : Command.printOne.compileFile (bytes "one") =
    .ok ⟨#[.push 1, { op := .print }], #[none, none]⟩ := by
  have hlex : Source.lex ⟨bytes "1 print", none⟩ = ([.push 1, { op := .print }], none) := by
    decide +kernel
  simp only [compileFile, printOne, Program.compile, hlex]
  rfl

/-- The lines of the trace are cut short, and nothing else goes wrong. -/
theorem runUnder_status_shortLog : ∃ h',
    Command.printOne.runUnder Job.context 9 [bytes "-trace", bytes "one"] .shortLog =
      .ok (some 2) h' ∧
    ¬ Command.printOne.Trouble { trace := true } (bytes "one") Job.context 9 .shortLog := by
  have hargs : Flags.parse {} [bytes "-trace", bytes "one"] =
      .ok ({ trace := true }, [bytes "one"]) := by decide +kernel
  have hends : ∀ p s, Command.printOne.compileFile (bytes "one") = .ok p →
      Session.new (Command.printOne.settings { trace := true } p) .shortLog = .ok () s →
      ∃ error s', s.run (Job.context ⟨{ trace := true }, s⟩) 9 = (.ended error, s') := by
    intro p s hfile hnew
    cases Command.compileFile_printOne.symm.trans hfile
    rw [show s = stateOf (.ok () s : EStateM.Result _ _ _) from rfl, ← hnew]
    exact ⟨none, _, Session.run_eq_of_fst (by decide +kernel)⟩
  have hextra : ∀ x ∈ SettingTree.flattenAll Command.printOne.extra, x.Beside .shortLog 1 := by
    intro x hx
    obtain rfl : x = .tee 2 := List.mem_singleton.mp hx
    show 2 ≠ 1
    decide
  have hcode : ((Command.printOne.runUnder Job.context 9 [bytes "-trace", bytes "one"]).run'
      .shortLog) = some (some 2) := by decide +kernel
  obtain ⟨code, h', hrun, -, htwo, -⟩ := runUnder_status hargs rfl Host.calm_shortLog rfl (by decide)
    hextra hends
  obtain rfl : code = 2 := by
    unfold EStateM.run' EStateM.run at hcode
    rw [hrun] at hcode
    cases hcode; rfl
  exact ⟨h', hrun, (htwo.mp rfl).1⟩

end WordStack
