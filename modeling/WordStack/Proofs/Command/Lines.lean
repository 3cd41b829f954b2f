import Mathlib.Data.List.Forall2
import WordStack.Proofs.Session.Reach
import WordStack.Proofs.Session.Upkeep

/-!
# The lines of a log

A journal gives each line to its sink in one write. As long as no write fails, the sink has accepted
exactly the lines, each behind its level; a write that fails or comes up short is remembered by the
sink and sets the exit code to 2. A session that logs to the journal on one level only, and writes to
other sinks, leaves lines of that level and nothing else.

* `Host.Logged`: lines of some levels were logged.
* `Host.report_logged`, `Host.reportError_logged`: what a report does to the lines and the exit code.
* `Session.Tracing`: only lines of a trace were logged, and the exit code tells whether one was lost.
* `Session.Tracing.run`: a run keeps it so.
-/
namespace WordStack

open Act (stateOf)

/-- The bytes that a sink accepted at once. -/
def Event.dataTo? (i : Nat) : Event → Option Bytes
  | .write j data => if j = i then some data else none
  | _ => none

namespace Host

/-- The pieces in which a sink has accepted bytes, in order. -/
def writesTo (h : Host) (i : Nat) : List Bytes := h.events.reverse.filterMap (Event.dataTo? i)

/-- A line of a level. -/
def HasLevel (level line : Bytes) : Prop := level ++ bytes ": " <+: line

/-- Since `h` lines of these levels were given to the sink `j`, and nothing else; it accepted all of
them unless a write failed. -/
structure Logged (j : Nat) (levels : List Bytes) (h h' : Host) : Prop where
  output : h'.journal.output = h.journal.output
  pending : h'.journal.pending = h.journal.pending
  kind : h'.kind? j = h.kind? j
  policy : h'.policy? j = h.policy? j
  remembers : h.hasFailed j = true → h'.hasFailed j = true
  lines : h.Records j → h'.hasFailed j = false →
    ∃ new, h'.writesTo j = h.writesTo j ++ new ∧ List.Forall₂ HasLevel levels new

/-- The journal writes to the sink `j`, which does not crash, and nothing is left of earlier lines. -/
structure LogsTo (j : Nat) (h : Host) : Prop where
  output : h.journal.output = some j
  pending : h.journal.pending = []
  calm : h.Calm j

variable {h h' h'' : Host} {i j : Nat} {xs ys : List Bytes} {r : Reach}

theorem Logged.refl (j : Nat) (h : Host) : h.Logged j [] h :=
  ⟨rfl, rfl, rfl, rfl, id, fun _ _ => ⟨[], (List.append_nil _).symm, .nil⟩⟩

theorem Logged.trans (a : h.Logged j xs h') (b : h'.Logged j ys h'') :
    h.Logged j (xs ++ ys) h'' := by
  refine ⟨b.output.trans a.output, b.pending.trans a.pending, b.kind.trans a.kind,
    b.policy.trans a.policy, fun hf => b.remembers (a.remembers hf), fun hrec hf => ?_⟩
  have hf' : h'.hasFailed j = false := by
    cases hfailed : h'.hasFailed j with
    | false => rfl
    | true => rw [b.remembers hfailed] at hf; cases hf
  obtain ⟨new, hnew, hlevels⟩ := a.lines hrec hf'
  obtain ⟨new', hnew', hlevels'⟩ := b.lines (by rwa [Records, a.kind, ← Records]) hf
  exact ⟨new ++ new', by rw [hnew', hnew, List.append_assoc], List.rel_append hlevels hlevels'⟩

theorem Logged.logsTo (a : h.Logged j xs h') (hl : h.LogsTo j) : h'.LogsTo j := by
  refine ⟨a.output.trans hl.output, a.pending.trans hl.pending, ?_⟩
  rw [Calm, a.policy]; exact hl.calm

/-! ## What leaves a log alone -/

theorem writesTo_of_events {new : List Event} (hnew : h'.events = new ++ h.events)
    (hj : ∀ data, .write j data ∉ new) : h'.writesTo j = h.writesTo j := by
  have hnone : new.reverse.filterMap (Event.dataTo? j) = [] := by
    rw [List.filterMap_eq_nil_iff]
    intro e he
    cases e with
    | write i data =>
      have hij : i ≠ j := by rintro rfl; exact hj data (List.mem_reverse.mp he)
      simp [Event.dataTo?, hij]
    | _ => rfl
  rw [writesTo, hnew, List.reverse_append, List.filterMap_append, hnone, List.append_nil, writesTo]

theorem Spares.sink? (s : h.Spares r h') (w : Writer) : w.sink? h' = w.sink? h := by
  cases w <;> simp [Writer.sink?, s.behind]

theorem Spares.hasFailed (s : h.Spares r h') (hj : ¬ r.sinks j) :
    h'.hasFailed j = h.hasFailed j := by
  rw [Host.hasFailed, s.sinks j hj, Host.hasFailed]

theorem Spares.logged (s : h.Spares r h') (hj : ¬ r.sinks j) (hjournal : ¬ r.journal) :
    h.Logged j [] h' := by
  have hsink := s.sinks j hj
  have hfailed := s.hasFailed hj
  obtain ⟨new, hnew, hwrites⟩ := s.events
  refine ⟨s.output, by rw [s.journal hjournal], by rw [kind?, hsink, kind?],
    by rw [policy?, hsink, policy?], fun hf => by rw [hfailed, hf], fun _ _ => ⟨[], ?_, .nil⟩⟩
  rw [List.append_nil]
  exact writesTo_of_events hnew fun data hm => hj (hwrites j data hm)

/-- Closing a sink is no write. -/
theorem logged_of_closeSink {e : Option Error} (hclose : closeSink i h = .ok e h') (j : Nat) :
    h.Logged j [] h' ∧ h'.journal = h.journal ∧ h'.hasFailed j = h.hasFailed j := by
  unfold closeSink at hclose
  cases hs : h.sinks[i]? with
  | none =>
    rw [hs] at hclose
    cases hclose
    exact ⟨Logged.refl j _, rfl, rfl⟩
  | some s =>
    rw [hs] at hclose
    cases hclose
    have hk := h.keeps_called i 0 false
    have hfailed : ((h.called i 0 false).tell (.close i)).hasFailed j = h.hasFailed j := by
      show ((h.sinks.modify i (·.called 0 false))[j]?).any (·.past.failed) = _
      rw [Array.getElem?_modify, hasFailed]
      split
      · cases h.sinks[j]? <;> simp [Sink.called]
      · rfl
    refine ⟨⟨rfl, rfl, congrFun hk.kinds j, congrFun hk.policies j, fun hf => by rw [hfailed, hf],
      fun _ _ => ⟨[], ?_, .nil⟩⟩, rfl, hfailed⟩
    rw [List.append_nil]
    have hnew : ((h.called i 0 false).tell (.close i)).events = [.close i] ++ h.events := rfl
    exact writesTo_of_events hnew (by simp)

/-! ## Lines -/

/-- A write to a sink that returns: the host took the bytes itself, or the sink took some of them. -/
theorem writeSink_eq_ok {data : Bytes} {w : Wrote} (hwrite : writeSink i data h = .ok w h') :
    ¬ h.Records i ∧ w = ⟨data.length, none⟩ ∧ h' = h ∨
      ∃ s taken failed, h.sinks[i]? = some s ∧ taken <+: data ∧ w.count = taken.length ∧
        failed = (w.error.isSome || decide (w.count < data.length)) ∧
        h' = if taken.isEmpty then h.called i taken.length failed
          else (h.called i taken.length failed).tell (.write i taken) := by
  unfold writeSink at hwrite
  cases hs : h.sinks[i]? with
  | none =>
    rw [hs] at hwrite
    cases hwrite
    exact .inl ⟨fun ⟨kind, hkind, _⟩ => by simp [kind?, hs] at hkind, rfl, rfl⟩
  | some s =>
    simp only [hs] at hwrite
    split at hwrite
    · next hd =>
      cases hwrite
      refine .inl ⟨fun ⟨kind, hkind, hne⟩ => ?_, rfl, rfl⟩
      simp only [kind?, hs, Option.map_some, Option.some.injEq] at hkind
      exact hne (hkind ▸ hd)
    · split at hwrite
      · cases hwrite
      · cases hwrite
      · next count error _ =>
        cases hwrite
        refine .inr ⟨s, data.take count, _, rfl, List.take_prefix count data, rfl, ?_, rfl⟩
        rw [Option.isSome_map]

section
variable {data : Bytes} {w : Wrote} (hwrite : writeSink i data h = .ok w h')

include hwrite

/-- A sink remembers exactly the writes that failed or came up short. -/
theorem hasFailed_writeSink :
    h'.hasFailed i = (h.hasFailed i || (w.error.isSome || decide (w.count < data.length))) := by
  rcases writeSink_eq_ok hwrite with ⟨-, rfl, rfl⟩ | ⟨s, taken, failed, hs, -, -, hfailed, rfl⟩
  · simp
  · rw [← hfailed]
    have hcalled : (h.called i taken.length failed).hasFailed i = (h.hasFailed i || failed) := by
      simp [hasFailed, called, Array.getElem?_modify, hs, Sink.called]
    split
    · exact hcalled
    · exact hcalled

theorem writesTo_writeSink (hrec : h.Records i) (hdata : data ≠ [])
    (hfull : ¬ w.count < data.length) : h'.writesTo i = h.writesTo i ++ [data] := by
  rcases writeSink_eq_ok hwrite with ⟨hno, -⟩ | ⟨s, taken, failed, -, htaken, hcount, -, rfl⟩
  · exact absurd hrec hno
  · obtain rfl : taken = data := htaken.eq_of_length_le (by omega)
    rw [if_neg (by simpa using hdata)]
    simp [writesTo, tell, called, Event.dataTo?]

theorem journal_writeSink : h'.journal = h.journal := by
  rcases writeSink_eq_ok hwrite with ⟨-, -, rfl⟩ | ⟨s, taken, failed, -, -, -, -, rfl⟩
  · rfl
  · split <;> rfl

end

theorem hasLevel_lineText {level : Bytes} (hlevel : level ≠ []) (message : Bytes) :
    HasLevel level (lineText [] level message) := by
  have hempty : level.isEmpty = false := by simpa using hlevel
  unfold lineText
  simp only [hempty, Bool.false_eq_true, if_false, List.nil_append]
  split
  · exact List.prefix_append _ _
  · rw [List.append_assoc]; exact List.prefix_append _ _

/-- A report gives the sink one line. If the write fails, the exit code is 2. -/
theorem report_logged (hl : h.LogsTo j) (level : Bytes) (hlevel : level ≠ []) (text : Bytes)
    (args : List Template.Arg) : ∃ h' failed, report level text args h = .ok () h' ∧
      h.Logged j [level] h' ∧ h'.hasFailed j = (h.hasFailed j || failed) ∧
      h'.journal.exitCode = (if failed then 2 else h.journal.exitCode) := by
  have hlevel' := hasLevel_lineText hlevel (Template.message text args)
  have hne : lineText [] level (Template.message text args) ≠ [] := by
    intro hnil
    rw [hnil, HasLevel, List.prefix_nil] at hlevel'
    exact hlevel (List.append_eq_nil_iff.mp hlevel').1
  unfold report
  rw [Act.get_bind]
  simp only [hl.output, hl.pending]
  simp only [modifyJournal, Act.modify_bind]
  generalize lineText [] level (Template.message text args) = line at hlevel' hne
  have hempty : line.isEmpty = false := by simpa using hne
  simp only [hempty, Bool.false_eq_true, if_false]
  have hcalm : Calm { h with journal := { h.journal with pending := line } } j := hl.calm
  obtain ⟨w, h₁, hwrite⟩ := exists_writeSink hcalm line
  have hreply := replies_of_writeSink hwrite
  have hfailed := hasFailed_writeSink hwrite
  have hjournal := journal_writeSink hwrite
  rw [Act.bind_ok hwrite]
  refine ⟨_, w.error.isSome || decide (w.count < line.length), rfl, ⟨?_, ?_, ?_, ?_, ?_, ?_⟩, hfailed,
    ?_⟩
  · show h₁.journal.output = h.journal.output
    rw [hjournal]
  · exact hl.pending.symm
  · exact congrFun hreply.calls.keeps.kinds j
  · exact congrFun hreply.calls.keeps.policies j
  · exact hreply.calls.remembers j
  · intro hrec hnone
    have hfull : ¬ w.count < line.length := by
      intro hlt
      have hsome : h₁.hasFailed j = true := (hreply.fails (.inr hlt)).1
      rw [show h₁.hasFailed j = false from hnone] at hsome
      cases hsome
    have hwrites := writesTo_writeSink hwrite (show Records _ j from hrec) hne hfull
    exact ⟨[line], hwrites, .cons hlevel' .nil⟩
  · show (if _ then 2 else h₁.journal.exitCode) = _
    rw [hjournal]

theorem reportError_logged (hl : h.LogsTo j) (text : Bytes) (args : List Template.Arg) :
    ∃ h', reportError text args h = .ok () h' ∧ h.Logged j [bytes "ERROR"] h' ∧
      h'.journal.exitCode = 1 := by
  obtain ⟨h₁, failed, hreport, hlogged, -, -⟩ := report_logged hl (bytes "ERROR")
    (by decide) text args
  refine ⟨_, Act.bind_ok hreport, ⟨hlogged.output, hlogged.pending, hlogged.kind, hlogged.policy,
    hlogged.remembers, hlogged.lines⟩, rfl⟩

end Host

/-! ## Runs that are traced -/

/-- The logger sends its lines to recorders, or to the journal as lines of a trace. -/
def Logger.Traces : Logger → Prop
  | .absent | .recorder _ => True
  | .journal level => level = bytes "TRACE"
  | .indented _ inner => inner.Traces

open Host

/-- The exit code tells whether a write to the sink `j` has failed, and nothing else. -/
def Host.CodeTells (j : Nat) (h : Host) : Prop :=
  h.journal.exitCode = if h.hasFailed j then 2 else 0

/-- A line that a logger sent, or failed to send. -/
theorem Logger.send_traces {j : Nat} {h : Host} (hl : h.LogsTo j) (hcode : h.CodeTells j)
    {l : Logger} (htraces : l.Traces) (template : Bytes) (args : List Template.Arg) :
    (∃ n, h.Logged j (.replicate n (bytes "TRACE")) (stateOf (l.send template args h))) ∧
      (stateOf (l.send template args h)).CodeTells j := by
  induction l generalizing template with
  | absent => exact ⟨⟨0, Logged.refl j h⟩, hcode⟩
  | recorder place =>
    have hspares := record_spares ⟨fun _ => False, fun _ => False, False⟩ h place
      (Template.message template args)
    refine ⟨⟨0, hspares.logged id id⟩, ?_⟩
    show CodeTells j (stateOf (record place (Template.message template args) h))
    rw [CodeTells, hspares.journal id, hspares.hasFailed id]
    exact hcode
  | journal level =>
    obtain ⟨h', failed, hreport, hlogged, hfailed, hcode'⟩ := report_logged hl level
      (by rw [htraces]; decide) template args
    have hsend : (Logger.journal level).send template args h = .ok () h' := hreport
    rw [hsend]
    rw [htraces] at hlogged
    refine ⟨⟨1, hlogged⟩, ?_⟩
    show h'.journal.exitCode = if h'.hasFailed j then 2 else 0
    rw [hcode', hfailed, hcode]
    cases failed <;> simp
  | indented text inner ih => exact ih htraces (text ++ template)

namespace Session

/-- Since the host was `h`, only lines of a trace went to the sink `j`, and the exit code tells
whether one was lost; and no writer of the outlet passes bytes on to that sink. -/
structure Tracing (j : Nat) (h : Host) (s : Session) : Prop where
  logged : ∃ n, h.Logged j (.replicate n (bytes "TRACE")) s.host
  code : s.host.CodeTells j
  apart : ∀ w ∈ s.outlet, w.sink? s.host ≠ some j
  logger : s.logger.Traces

variable {j : Nat} {h : Host} {s : Session}

/-- What the outlet does is no matter of the log. -/
theorem Tracing.of_spares {h' : Host} (ht : s.Tracing j h)
    (hspares : s.host.Spares (s.outlet.reach s.host) h') : Tracing j h { s with host := h' } := by
  have hj : ¬ (s.outlet.reach s.host).sinks j := fun ⟨w, hw, hsink⟩ => ht.apart w hw hsink
  obtain ⟨n, hlogged⟩ := ht.logged
  refine ⟨⟨n, ?_⟩, ?_, fun w hw => ?_, ht.logger⟩
  · have hboth := hlogged.trans (hspares.logged hj id)
    rwa [List.append_nil] at hboth
  · rw [CodeTells, hspares.journal id, hspares.hasFailed hj]
    exact ht.code
  · rw [hspares.sink?]; exact ht.apart w hw

theorem Tracing.of_log (hl : h.LogsTo j) (ht : s.Tracing j h) (mark text : Bytes) :
    Tracing j h (stateOf (log mark text s)) := by
  obtain ⟨n, hlogged⟩ := ht.logged
  obtain ⟨⟨m, hsent⟩, hcode⟩ := Logger.send_traces (hlogged.logsTo hl) ht.code ht.logger
    (bytes "%v %v") [.text (padMark s.markWidth mark), .text text]
  rw [log_eq]
  split
  · have hspares := Logger.send_spares (r := ⟨fun _ => True, fun _ => False, True⟩) trivial s.logger
      (fun _ _ => trivial) (h := s.host) (bytes "%v %v")
      [.text (padMark s.markWidth mark), .text text]
    rw [stateOf_onHost]
    refine ⟨⟨n + m, ?_⟩, hcode, fun w hw => ?_, ht.logger⟩
    · rw [← List.replicate_append_replicate]; exact hlogged.trans hsent
    · rw [hspares.sink?]; exact ht.apart w hw
  · exact ht

theorem upheld_tracing (hl : h.LogsTo j) : Upheld (Tracing j h) where
  machine _ ht := ⟨ht.logged, ht.code, ht.apart, ht.logger⟩
  log mark text ht := ht.of_log hl mark text
  write text ht := ht.of_spares (Outlet.writeText_spares (Outlet.covers_reach _ _)
    (fun _ => Outlet.includes_reach _) text)
  flush ht := ht.of_spares (Outlet.flush_spares (Outlet.covers_reach _ _)
    fun _ => Outlet.includes_reach _)
  indented _ ht := ⟨ht.logged, ht.code, ht.apart, ht.logger⟩
  logger ht ht' := ⟨ht'.logged, ht'.code, ht'.apart, ht.logger⟩

/-- A run logs lines of a trace only. -/
theorem Tracing.run (hl : h.LogsTo j) (ht : s.Tracing j h) (context : Context) (fuel : Nat) :
    (s.run context fuel).2.Tracing j h := (upheld_tracing hl).run ht context fuel

end Session

end WordStack
