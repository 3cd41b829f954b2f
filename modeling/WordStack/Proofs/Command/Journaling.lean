import WordStack.Proofs.Command.Lines

/-!
# The books that a journal keeps

A journal is called to print lines, to report errors, and to change or close its output. Its sinks
may fail or accept less than they are given, in any pattern, and two exit codes follow different
rules. Every call asks at most one thing of one sink, and what comes of the journal is decided by the
call, by whether that failed, and by the exit code before; nothing of a line that failed is left for
the next one.

* `Journal.Call.request?`, `Journal.Call.codeAfter`: what a call asks of a sink, and the exit code behind it.
* `Journal.Call.Does`: all that a call changes.
* `Journal.Call.perform_does`: a call returns, and does just that.
* `Journal.performAll_returns`: so do sequences of calls, and an exit code other than 0 stays so.
* `Journal.keeps_its_books`: both, from a journal that is new.
-/
namespace WordStack

/-- A host with another journal. -/
def Host.withJournal (h : Host) (j : Journal) : Host := { h with journal := j }

namespace Journal

/-- A call of a journal. -/
inductive Call where
  | setOutput (sink : Option Nat)
  | report (level text : Bytes) (args : List Template.Arg)
  /-- A line through the logger for a level. -/
  | send (level text : Bytes) (args : List Template.Arg)
  | reportError (text : Bytes) (args : List Template.Arg)
  | reportIf (error : Option Error)
  | close

/-- Make a call. -/
def Call.perform : Call → Act Host Unit
  | setOutput sink => Host.setOutput sink
  | report level text args => Host.report level text args
  | send level text args => (Logger.journal level).send text args
  | reportError text args => Host.reportError text args
  | reportIf error => Host.reportIf error
  | close => Host.closeJournal

/-- Make calls one after the other. -/
def performAll : List Call → Act Host Unit
  | [] => return ()
  | c :: calls => do
    c.perform
    performAll calls

/-! ## What a call should do -/

/-- The line of a message: the level with a colon if there is a level, the message, and a line feed
unless that text ends in one. -/
def ownLine (level message : Bytes) : Bytes :=
  let text := if level = [] then message else level ++ bytes ": " ++ message
  if text.getLast? = some lineFeed then text else text ++ [lineFeed]

/-- The line to write, if there is a level or a message. -/
def line? (level message : Bytes) : Option Bytes :=
  if level = [] ∧ message = [] then none else some (ownLine level message)

/-- Something that a journal asks of a sink. -/
inductive Request where
  | write (sink : Nat) (line : Bytes)
  | close (sink : Nat)

namespace Call

/-- The line that a call prints. -/
def line? : Call → Option Bytes
  | report level text args | send level text args => Journal.line? level (Template.message text args)
  | reportError text args => Journal.line? (bytes "ERROR") (Template.message text args)
  | reportIf (some e) => Journal.line? (bytes "ERROR") e.message
  | reportIf none | setOutput _ | close => none

/-- What a call asks of the output: that it takes a line, or that it closes if it can be closed. -/
def request? (c : Call) (h : Host) : Option Request :=
  h.journal.output.bind fun i =>
    match c with
    | setOutput _ | close => if h.isClosable i then some (.close i) else none
    | _ => c.line?.map (.write i)

/-- The output behind a call. -/
def outputAfter (output : Option Nat) : Call → Option Nat
  | setOutput sink => sink
  | close => none
  | _ => output

/-- The exit code behind a call, from whether what it asked for failed and the code before. -/
def codeAfter (failed : Bool) (code : Nat) : Call → Nat
  | setOutput _ | close => if failed ∧ code = 0 then 2 else code
  | report .. | send .. => if failed then 2 else code
  | reportError .. | reportIf (some _) => 1
  | reportIf none => code

end Call

/-- What a sink does for a request, and whether that failed: a write that returns an error or takes
too little, or a close that returns an error. -/
inductive Answers : Option Request → Host → (failed : Bool) → Host → Prop
  | nothing (h : Host) : Answers none h false h
  | write {i : Nat} {line : Bytes} {h h' : Host} {w : Wrote} :
    Host.writeSink i line h = .ok w h' →
    Answers (some (.write i line)) h (w.error.isSome || decide (w.count < line.length)) h'
  | close {i : Nat} {h h' : Host} {error : Option Error} :
    Host.closeSink i h = .ok error h' → Answers (some (.close i)) h error.isSome h'

/-- A call changes what the sink does that it asks, and the journal: its buffer is empty, and output
and exit code are those that belong to the call. -/
def Call.Does (c : Call) (h h' : Host) : Prop :=
  ∃ failed h₁, Answers (c.request? h) h failed h₁ ∧
    h' = h₁.withJournal
      { output := c.outputAfter h.journal.output
        pending := []
        exitCode := c.codeAfter failed h.journal.exitCode }

/-! ## Sinks and the journal -/

/-- A sink knows nothing of the journal. -/
theorem writeSink_withJournal {i : Nat} {data : Bytes} {w : Wrote} {h h₁ : Host} (j : Journal)
    (hwrite : Host.writeSink i data h = .ok w h₁) :
    Host.writeSink i data (h.withJournal j) = .ok w (h₁.withJournal j) := by
  unfold Host.writeSink at hwrite ⊢
  cases hs : h.sinks[i]? with
  | none =>
    rw [hs] at hwrite
    cases hwrite
    simp [Host.withJournal, hs]
  | some s =>
    simp only [hs] at hwrite
    simp only [Host.withJournal, hs]
    split at hwrite
    · next hdiscard =>
      cases hwrite
      simp [hdiscard]
    · next hdiscard =>
      rw [if_neg hdiscard]
      cases hreply : s.policy.write s.past data with
      | crash value => simp [hreply] at hwrite
      | exit => simp [hreply] at hwrite
      | took count error =>
        simp only [hreply] at hwrite
        cases hwrite
        simp only [Host.called, Host.tell]
        split <;> rfl

theorem exists_closeSink (i : Nat) (h : Host) :
    ∃ error h', Host.closeSink i h = .ok error h' ∧ h'.journal = h.journal := by
  unfold Host.closeSink
  cases h.sinks[i]? with
  | none => exact ⟨_, _, rfl, rfl⟩
  | some s => exact ⟨_, _, rfl, rfl⟩

/-- What a sink does for a request leaves all sinks what they are. -/
theorem Answers.policies {r : Option Request} {h h' : Host} {failed : Bool}
    (ha : Answers r h failed h') : h'.policy? = h.policy? := by
  cases ha with
  | nothing => rfl
  | write hwrite => exact (Host.replies_of_writeSink hwrite).calls.keeps.policies
  | close hclose => exact funext fun j => (Host.logged_of_closeSink hclose j).1.policy

/-! ## One call -/

theorem ownLine_ne_nil (level message : Bytes) : ownLine level message ≠ [] := by
  unfold ownLine
  generalize (if level = [] then message else level ++ bytes ": " ++ message) = text
  intro hnil
  dsimp only at hnil
  split at hnil
  · next hlast => simp [hnil] at hlast
  · simp at hnil

/-- A journal that has nothing left of earlier lines makes the line of the message alone. -/
theorem lineText_nil (level message : Bytes) :
    Host.lineText [] level message = (line? level message).getD [] := by
  by_cases hlevel : level = []
  · subst hlevel
    by_cases hmessage : message = []
    · subst hmessage; rfl
    · simp [Host.lineText, line?, ownLine, hmessage]
  · simp [Host.lineText, line?, ownLine, hlevel]

theorem withJournal_self {h : Host} {output : Option Nat} (houtput : h.journal.output = output)
    (hpending : h.journal.pending = []) :
    h.withJournal { output, pending := [], exitCode := h.journal.exitCode } = h := by
  rw [← hpending, ← houtput]
  rfl

/-- A printed line is one write to the output, if there are an output and a line. -/
theorem report_answers {h : Host} (hpending : h.journal.pending = []) (hcalm : ∀ i, h.Calm i)
    (level text : Bytes) (args : List Template.Arg) : ∃ failed h₁,
      Answers (h.journal.output.bind fun i =>
        (line? level (Template.message text args)).map (.write i)) h failed h₁ ∧
      Host.report level text args h = .ok () (h₁.withJournal
        { output := h.journal.output, exitCode := if failed then 2 else h.journal.exitCode }) := by
  unfold Host.report
  rw [Act.get_bind]
  cases houtput : h.journal.output with
  | none =>
    exact ⟨false, h, .nothing h, congrArg (EStateM.Result.ok ()) (withJournal_self houtput hpending).symm⟩
  | some i =>
    simp only [hpending, lineText_nil, Host.modifyJournal]
    rw [Act.modify_bind]
    cases hline : line? level (Template.message text args) with
    | none => exact ⟨false, h, .nothing h, by rw [← houtput]; rfl⟩
    | some line =>
      have hne : line.isEmpty = false := by
        obtain ⟨-, rfl⟩ : _ ∧ ownLine level (Template.message text args) = line := by
          simpa [line?] using hline
        simpa using ownLine_ne_nil level (Template.message text args)
      obtain ⟨w, h₁, hwrite⟩ := Host.exists_writeSink (hcalm i) line
      refine ⟨_, h₁, .write hwrite, ?_⟩
      have hput := writeSink_withJournal { h.journal with pending := line } hwrite
      simp only [Option.getD_some, hne, Bool.false_eq_true, if_false]
      rw [← houtput]
      exact Act.bind_ok hput

/-- The output is closed if it can be; that it fails sets the exit code only if none was set. -/
theorem setOutput_answers {h : Host} (hpending : h.journal.pending = []) (sink : Option Nat) :
    ∃ failed h₁,
      Answers (h.journal.output.bind fun i => if h.isClosable i then some (.close i) else none)
        h failed h₁ ∧
      Host.setOutput sink h = .ok () (h₁.withJournal
        { output := sink
          exitCode := if failed ∧ h.journal.exitCode = 0 then 2 else h.journal.exitCode }) := by
  unfold Host.setOutput Host.closeOutput
  rw [bind_assoc, Act.get_bind]
  have hstays : Host.modifyJournal (fun j => { j with output := sink }) h =
      .ok () (h.withJournal { output := sink, exitCode := h.journal.exitCode }) := by
    rw [← hpending]
    rfl
  cases houtput : h.journal.output with
  | none => exact ⟨false, h, .nothing h, hstays⟩
  | some i =>
    by_cases hclosable : h.isClosable i = true
    · obtain ⟨error, h₁, hclose, hjournal⟩ := exists_closeSink i h
      simp only [hclosable, if_true, Option.bind_some]
      refine ⟨_, h₁, .close hclose, ?_⟩
      rw [bind_assoc, Act.bind_ok hclose, ← hpending, ← hjournal]
      simp only [Host.modifyJournal, Act.modify_bind, Bool.and_eq_true, beq_iff_eq]
      by_cases hfailed : error.isSome = true ∧ h₁.journal.exitCode = 0
      · simp only [hfailed, and_self, if_true]
        rfl
      · simp only [hfailed, if_false]
        rfl
    · simp only [hclosable, Option.bind_some]
      exact ⟨false, h, .nothing h, hstays⟩

theorem message_plain (text : Bytes) : Template.message (bytes "%v") [.text text] = text := by
  have hverb : bytes "%v" = [37, 118] := by decide +kernel
  rw [Template.message, if_neg (by simp), Template.fill, hverb, Template.fillFrom_plain _ _ _ _ rfl,
    Template.fillFrom]
  simp [Template.leftover]

/-- The report of an error is a line, and then the exit code is 1 whatever came of it. -/
theorem reportError_answers {h : Host} (hpending : h.journal.pending = []) (hcalm : ∀ i, h.Calm i)
    (text : Bytes) (args : List Template.Arg) : ∃ failed h₁,
      Answers (h.journal.output.bind fun i =>
        (line? (bytes "ERROR") (Template.message text args)).map (.write i)) h failed h₁ ∧
      Host.reportError text args h =
        .ok () (h₁.withJournal { output := h.journal.output, exitCode := 1 }) := by
  obtain ⟨failed, h₁, ha, hreport⟩ := report_answers hpending hcalm (bytes "ERROR") text args
  exact ⟨failed, h₁, ha, Act.bind_ok hreport⟩

/-- A call returns and does what belongs to it. -/
theorem Call.perform_does {h : Host} (hpending : h.journal.pending = []) (hcalm : ∀ i, h.Calm i)
    (c : Call) : ∃ h', c.perform h = .ok () h' ∧ c.Does h h' := by
  cases c with
  | setOutput sink =>
    obtain ⟨failed, h₁, ha, hset⟩ := setOutput_answers hpending sink
    exact ⟨_, hset, failed, h₁, ha, rfl⟩
  | close =>
    obtain ⟨failed, h₁, ha, hset⟩ := setOutput_answers hpending none
    exact ⟨_, hset, failed, h₁, ha, rfl⟩
  | report level text args =>
    obtain ⟨failed, h₁, ha, hreport⟩ := report_answers hpending hcalm level text args
    exact ⟨_, hreport, failed, h₁, ha, rfl⟩
  | send level text args =>
    obtain ⟨failed, h₁, ha, hreport⟩ := report_answers hpending hcalm level text args
    exact ⟨_, hreport, failed, h₁, ha, rfl⟩
  | reportError text args =>
    obtain ⟨failed, h₁, ha, hreport⟩ := reportError_answers hpending hcalm text args
    exact ⟨_, hreport, failed, h₁, ha, rfl⟩
  | reportIf error =>
    cases error with
    | none =>
      refine ⟨h, rfl, false, h, ?_, (withJournal_self rfl hpending).symm⟩
      cases houtput : h.journal.output with
      | none => simpa [request?, houtput] using Answers.nothing h
      | some i => simpa [request?, houtput, Call.line?] using Answers.nothing h
    | some e =>
      obtain ⟨failed, h₁, ha, hreport⟩ := reportError_answers hpending hcalm (bytes "%v")
        [.text e.message]
      rw [message_plain] at ha
      exact ⟨_, hreport, failed, h₁, ha, rfl⟩

/-! ## Sequences of calls -/

namespace Call.Does

variable {c : Call} {h h' : Host} (hdoes : c.Does h h')

include hdoes

theorem pending : h'.journal.pending = [] := by
  obtain ⟨failed, h₁, -, rfl⟩ := hdoes
  rfl

theorem calm (hcalm : ∀ i, h.Calm i) : ∀ i, h'.Calm i := by
  obtain ⟨failed, h₁, ha, rfl⟩ := hdoes
  intro i
  show h₁.Calm i
  rw [Host.Calm, ha.policies]
  exact hcalm i

/-- No call takes an exit code back. -/
theorem exitCode_ne_zero (hcode : h.journal.exitCode ≠ 0) : h'.journal.exitCode ≠ 0 := by
  obtain ⟨failed, h₁, -, rfl⟩ := hdoes
  show c.codeAfter failed h.journal.exitCode ≠ 0
  cases c with
  | reportIf error => cases error <;> simp [codeAfter, hcode]
  | _ => cases failed <;> simp [codeAfter, hcode]

end Call.Does

/-- Calls return one after the other, by induction on them; all that a call needs is that the buffer
is empty and that no sink crashes. -/
theorem performAll_returns {h : Host} (hpending : h.journal.pending = []) (hcalm : ∀ i, h.Calm i)
    (calls : List Call) : ∃ h', performAll calls h = .ok () h' ∧ h'.journal.pending = [] ∧
      (∀ i, h'.Calm i) ∧ (h.journal.exitCode ≠ 0 → h'.journal.exitCode ≠ 0) := by
  induction calls generalizing h with
  | nil => exact ⟨h, rfl, hpending, hcalm, id⟩
  | cons c calls ih =>
    obtain ⟨h₁, hcall, hdoes⟩ := c.perform_does hpending hcalm
    obtain ⟨h₂, hcalls, hpending₂, hcalm₂, hcode⟩ := ih hdoes.pending (hdoes.calm hcalm)
    exact ⟨h₂, by rw [performAll, Act.bind_ok hcall, hcalls], hpending₂, hcalm₂,
      fun hne => hcode (hdoes.exitCode_ne_zero hne)⟩

/-- A new journal whose sinks do not crash has exit code 0. Whatever calls are made of it, they
return, its buffer is then empty, the next call does exactly what belongs to it, and if the exit code
is not 0 it never is again. -/
theorem keeps_its_books {h : Host} (hnew : h.journal = {}) (hcalm : ∀ i, h.Calm i)
    (calls : List Call) :
    h.journal.exitCode = 0 ∧ ∃ h₁, performAll calls h = .ok () h₁ ∧ h₁.journal.pending = [] ∧
      (∀ c : Call, ∃ h₂, c.perform h₁ = .ok () h₂ ∧ c.Does h₁ h₂) ∧
      ∀ later, ∃ h₂, performAll later h₁ = .ok () h₂ ∧
        (h₁.journal.exitCode ≠ 0 → h₂.journal.exitCode ≠ 0) := by
  obtain ⟨h₁, hcalls, hpending, hcalm₁, -⟩ := performAll_returns (by rw [hnew]) hcalm calls
  refine ⟨by rw [hnew], h₁, hcalls, hpending, fun c => c.perform_does hpending hcalm₁,
    fun later => ?_⟩
  obtain ⟨h₂, hlater, -, -, hcode⟩ := performAll_returns hpending hcalm₁ later
  exact ⟨h₂, hlater, hcode⟩

/-- One sink that takes three bytes at a time and fails to close, and one that is full. -/
def unreliable : Host where
  sinks := #[
    { closable := true
      policy :=
        { write := fun _ data => .took (min 3 data.length) none
          close := fun _ => some (.external (bytes "stuck")) } },
    { policy := { write := fun _ _ => .took 0 (some (.external (bytes "full"))) } }]

theorem calm_unreliable (i : Nat) : unreliable.Calm i := by
  intro p hp past data
  match i with
  | 0 => cases hp; exact ⟨_, _, rfl⟩
  | 1 => cases hp; exact ⟨_, _, rfl⟩
  | i + 2 => cases hp

/-- A line that is cut short sets 2, a close that fails keeps it, and the report of an error sets 1
although nothing of its line is taken. -/
theorem keeps_its_books_unreliable :
    (Act.stateOf (performAll [.setOutput (some 0), .report [] (bytes "done") [],
      .setOutput (some 1)] unreliable)).journal.exitCode = 2 ∧
    (Act.stateOf (performAll [.setOutput (some 0), .report [] (bytes "done") [],
      .setOutput (some 1), .reportError (bytes "no") []] unreliable)).journal.exitCode = 1 ∧
    ∃ h₁, performAll [.setOutput (some 0), .report [] (bytes "done") [], .setOutput (some 1)]
      unreliable = .ok () h₁ ∧ h₁.journal.pending = [] ∧
      ∃ h₂, (Call.reportError (bytes "no") []).perform h₁ = .ok () h₂ ∧
        (Call.reportError (bytes "no") []).Does h₁ h₂ := by
  refine ⟨by decide, by decide, ?_⟩
  obtain ⟨-, h₁, hcalls, hpending, hnext, -⟩ := keeps_its_books (h := unreliable) rfl calm_unreliable
    [.setOutput (some 0), .report [] (bytes "done") [], .setOutput (some 1)]
  exact ⟨h₁, hcalls, hpending, hnext _⟩

end Journal

end WordStack
