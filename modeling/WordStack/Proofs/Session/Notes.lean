import WordStack.Proofs.Host.Silence
import WordStack.Proofs.Machine.Notes
import WordStack.Proofs.Session.Forward
import WordStack.Proofs.Session.Returning

/-!
# The log lines of an instruction

A session that logs to a recorder leaves a line for every note of an instruction. Sinks may do
anything meanwhile: a write may fail, which halts the run and leaves one line more, or crash, which
breaks the run off without a line.

* `Session.stackText`, `Session.instructionText`, `Session.traceLine`, `Session.noteLine`: what the
  lines look like, written out.
* `Session.Adds`, `Session.Traces`: lines that were logged, and the line of a halt behind them.
* `Session.log_adds`, `Session.halt_traces`, `Session.writeText_traces`: the lines of effects.
* `Session.Plays`: the lines of an instruction, the machine that it leaves, and what breaks it off.
* `Session.play_plays`: a script logs the lines of its notes. `Session.Plays.indented`: behind a tab.
-/
namespace WordStack

open Act (stateOf)

/-- A recorder logs the line, unless it crashes at this call. -/
theorem Host.record_cases (r : Nat) (line : Bytes) (h : Host) :
    (∃ h', record r line h = .ok () h' ∧ h'.lines = h.lines ++ [line]) ∨
    ∃ recorder value h', h.recorders[r]? = some recorder ∧
      recorder.crash (recorder.calls + 1) = some value ∧
      record r line h = .error (.crash (.text value)) h' ∧ h'.lines = h.lines := by
  unfold record
  cases hr : h.recorders[r]? with
  | none => exact .inl ⟨_, rfl, lines_tell h _⟩
  | some recorder =>
    dsimp only
    cases hcrash : recorder.crash (recorder.calls + 1) with
    | none => exact .inl ⟨_, rfl, lines_tell _ _⟩
    | some value => exact .inr ⟨recorder, value, _, rfl, hcrash, rfl, rfl⟩

/-- A recorder that does not crash logs the line. -/
theorem Host.record_adds {h : Host} {r : Nat}
    (hcalm : ∀ crash, h.crash? r = some crash → ∀ n, crash n = none) (line : Bytes) :
    ∃ h', record r line h = .ok () h' ∧ h'.lines = h.lines ++ [line] ∧ h'.crash? = h.crash? := by
  rcases record_cases r line h with ⟨h', hrecord, hlines⟩ | ⟨recorder, value, h', hr, hcrash, -, -⟩
  · exact ⟨h', hrecord, hlines, (logs_of_record hrecord).1.keeps.crashes⟩
  · have hquiet := hcalm recorder.crash (by simp [crash?, hr]) (recorder.calls + 1)
    rw [hcrash] at hquiet
    cases hquiet

namespace Session

/-! ## Lines -/

/-- A value in a line: a number in decimal digits, and a text as it is. -/
def valueText : Value → Bytes
  | .int n => Decimal.ofInt n.toInt
  | .text t => t

/-- A stack in a line: its values from the bottom to the top, with one space between neighbours, in
brackets. -/
def stackText (stack : List Value) : Bytes :=
  bytes "[" ++ (bytes " ").intercalate (stack.reverse.map valueText) ++ bytes "]"

/-- An instruction in a line: its operation, and in parentheses the number that it pushes or the
word in quotes. -/
def instructionText (i : Instruction) : Bytes :=
  match i.op with
  | .push => bytes "push(" ++ Decimal.ofInt i.int.toInt ++ bytes ")"
  | .word => bytes "word(" ++ Quoted.quote i.word ++ bytes ")"
  | op => op.name

theorem showStack_eq (stack : List Value) : Note.showStack stack = stackText stack := by
  have hvalue : Value.render = valueText := by
    funext v
    cases v <;> rfl
  rw [Note.showStack, bracketed, joinWith_eq_intercalate, hvalue, stackText]

theorem render_eq_instructionText (i : Instruction) : i.render = instructionText i := by
  have hpush : bytes "push" ++ bytes "(" = bytes "push(" := by decide
  have hword : bytes "word" ++ bytes "(" = bytes "word(" := by decide
  unfold Instruction.render instructionText
  split
  · next h => simp only [h, Op.name, Instruction.argument, hpush]
  · next h => simp only [h, Op.name, Instruction.argument, hword]
  · simp [*]

/-- A line of a trace: an indentation, a mark of one byte that is repeated up to the width of the
widest mark so far, and a text. -/
def traceLine (indent : Bytes) (width : Nat) (mark text : Bytes) : Bytes :=
  indent ++ (List.replicate (max width 1) mark).flatten ++ bytes " " ++ text

/-- The first line of a run. -/
def startLine (width size : Nat) : Bytes :=
  traceLine [] width (bytes "#") (bytes "run " ++ Decimal.ofNat size ++ bytes " instructions")

/-- The last line of a run that comes to its end. -/
def doneLine (width : Nat) (stack : List Value) : Bytes :=
  traceLine [] width (bytes "#") (bytes "done, stack:" ++ stackText stack)

/-- The last line of a run that halts. -/
def haltLine (width : Nat) (e : Error) : Bytes :=
  traceLine (bytes "\t") width (bytes "#") (bytes "halt error: " ++ e.message)

/-- The line of a note. -/
def noteLine (width : Nat) : Note → Bytes
  | .exec position instruction stack =>
    traceLine (bytes "\t") width (bytes ">") (bytes "exec @" ++ Decimal.ofInt position ++
      bytes " " ++ instructionText instruction ++ bytes " -- s:" ++ stackText stack)
  | .mismatch op operand =>
    traceLine (bytes "\t") width (bytes "!") (bytes "type mismatch in " ++ op.name ++ bytes ": " ++
      match operand with
      | .int n => Decimal.ofInt n.toInt
      | .text t => Quoted.quote t)
  | .jump source target =>
    traceLine (bytes "\t") width (bytes "^") (bytes "jump @" ++ Decimal.ofInt source ++
      bytes " -> @" ++ Decimal.ofInt target)

theorem noteLine_eq (width : Nat) (n : Note) :
    noteLine width n = traceLine (bytes "\t") width n.mark n.render := by
  cases n with
  | exec position instruction stack =>
    rw [noteLine, ← render_eq_instructionText, ← showStack_eq]
    rfl
  | mismatch op operand => rfl
  | jump source target => rfl

theorem traceLine_congr {v w : Nat} (h : max v 1 = max w 1) (indent mark text : Bytes) :
    traceLine indent v mark text = traceLine indent w mark text := by
  rw [traceLine, h, traceLine]

theorem map_noteLine_congr {v w : Nat} (h : max v 1 = max w 1) (ns : List Note) :
    ns.map (noteLine v) = ns.map (noteLine w) := by
  refine List.map_congr_left fun n _ => ?_
  rw [noteLine_eq, traceLine_congr h, noteLine_eq]

/-- The text is one character of one byte. -/
def IsMark (mark : Bytes) : Prop := ∃ c, Utf8.encode c = mark ∧ mark.length = 1

theorem isMark_number : IsMark (bytes "#") := ⟨'#', by decide, by decide⟩

theorem isMark_note (n : Note) : IsMark n.mark := by
  have hexec : IsMark (bytes ">") := ⟨'>', by decide, by decide⟩
  have hmismatch : IsMark (bytes "!") := ⟨'!', by decide, by decide⟩
  have hjump : IsMark (bytes "^") := ⟨'^', by decide, by decide⟩
  cases n with
  | exec => exact hexec
  | mismatch => exact hmismatch
  | jump => exact hjump

/-- A mark of one byte is repeated. -/
theorem padMark_eq {mark : Bytes} (hmark : IsMark mark) (width : Nat) :
    padMark width mark = (List.replicate (max width 1) mark).flatten := by
  obtain ⟨c, rfl, hlength⟩ := hmark
  have hfirst := Utf8.first?_encode_append c []
  rw [List.append_nil] at hfirst
  rw [padMark_of_first? hfirst, hlength, show max width 1 = (width - 1) + 1 by omega,
    List.replicate_succ', List.flatten_append]
  simp

/-! ## What is logged -/

/-- From one session to another just these lines were logged, and neither the width of marks of one
byte nor the recorders' ways have changed. -/
structure Adds (lines : List Bytes) (s s' : Session) : Prop where
  lines : s'.host.lines = s.host.lines ++ lines
  width : max s'.markWidth 1 = max s.markWidth 1
  crashes : s'.host.crash? = s.host.crash?

/-- All lines go to the recorder `r`, which never crashes, behind an indentation. -/
structure Recording (indent : Bytes) (r : Nat) (s : Session) : Prop where
  logger : ∀ template args,
    s.logger.send template args = Host.record r (Template.message (indent ++ template) args)
  present : s.logger.isPresent = true
  calm : ∀ crash, s.host.crash? r = some crash → ∀ n, crash n = none

variable {s s' s'' : Session} {indent : Bytes} {r : Nat} {a b : List Bytes}

theorem Adds.refl (s : Session) : Adds [] s s := ⟨(List.append_nil _).symm, rfl, rfl⟩

theorem Adds.trans (h : Adds a s s') (h' : Adds b s' s'') : Adds (a ++ b) s s'' :=
  ⟨by rw [h'.lines, h.lines, List.append_assoc], h'.width.trans h.width,
    h'.crashes.trans h.crashes⟩

theorem Recording.within (hs : s.Recording indent r) (h : s.Within s') (ha : Adds a s s') :
    s'.Recording indent r := by
  have hlogger := h.logger
  refine ⟨?_, ?_, ?_⟩
  · rw [hlogger]; exact hs.logger
  · rw [hlogger]; exact hs.present
  · rw [ha.crashes]; exact hs.calm

/-- The lines that an abort leaves behind: that of a halt. -/
def closing (width : Nat) : Abort → List Bytes
  | .crash (.error (.haltedBy e)) => [haltLine width e]
  | _ => []

/-- A computation of a session has logged some lines, and the line of a halt if it halted. -/
def Traces {α : Type} (lines : List Bytes) (s : Session) : EStateM.Result Abort Session α → Prop
  | .ok _ s' => Adds lines s s'
  | .error e s' => Adds (lines ++ closing s.markWidth e) s s'

theorem closing_of_foreign {e : Abort} (h : e.Foreign) (width : Nat) : closing width e = [] := by
  match e with
  | .crash (.error _) => obtain ⟨f, rfl⟩ := h; rfl
  | .crash (.text _) | .exit => rfl

theorem closing_congr {v w : Nat} (h : max v 1 = max w 1) (e : Abort) :
    closing v e = closing w e := by
  unfold closing
  split
  · rw [haltLine, traceLine_congr h, haltLine]
  · rfl

theorem Adds.of_foreign {α : Type} {e : Abort} (h : Adds a s s') (he : e.Foreign) :
    Traces a s (.error e s' : EStateM.Result Abort Session α) := by
  show Adds (a ++ closing s.markWidth e) s s'
  rw [closing_of_foreign he, List.append_nil]
  exact h

section
variable {α β : Type} {act : M α} {k : α → M β}

/-- Lines that were logged before come in front. -/
theorem Adds.traces {res : EStateM.Result Abort Session α} (ha : Adds a s s')
    (h : Traces b s' res) : Traces (a ++ b) s res := by
  cases res with
  | ok x t => exact ha.trans h
  | error e t =>
    have hadds : Adds (a ++ (b ++ closing s'.markWidth e)) s t := ha.trans h
    rwa [← List.append_assoc, closing_congr ha.width] at hadds

/-- What comes behind may halt, but logs nothing else. -/
theorem Traces.bind (hact : Traces a s (act s))
    (hk : ∀ x s', act s = .ok x s' → Traces [] s' (k x s')) : Traces a s ((act >>= k) s) := by
  cases hres : act s with
  | ok x t =>
    rw [hres] at hact
    have htraces := Adds.traces hact (hk x t hres)
    rw [Act.bind_ok hres]
    rwa [List.append_nil] at htraces
  | error e t =>
    rw [hres] at hact
    rwa [Act.bind_error hres]

end

/-! ## Effects -/

/-- Output is not logged. -/
theorem onHost_adds {α : Type} {act : Act Host α} (hact : Act.Relates Host.Unlogged act)
    (s : Session) : Adds [] s (stateOf (onHost act s)) := by
  have hquiet := hact s.host
  have hadds : Adds [] s { s with host := stateOf (act s.host) } := by
    refine ⟨?_, rfl, ?_⟩
    · rw [List.append_nil]; exact hquiet.lines
    · funext r; rw [Host.crash?, hquiet.recorders, Host.crash?]
  unfold onHost Act.zoom
  cases hres : act s.host with
  | ok x h => rw [hres] at hadds; exact hadds
  | error e h => rw [hres] at hadds; exact hadds

theorem settle_adds (reason : Option Error) (s : Session) :
    Adds [] s (stateOf (settle reason s)) := by
  have hflush := onHost_adds (Outlet.flush_unlogged s.outlet) s
  unfold settle
  split
  · exact Adds.refl s
  · split
    · next h => rw [h] at hflush; exact hflush
    · next h => rw [h] at hflush; exact hflush
    · next h => rw [h] at hflush; exact hflush

section
variable (hs : s.Recording indent r)

include hs

/-- A log line is one line of the trace. -/
theorem log_adds (hindent : 37 ∉ indent) {mark : Bytes} (hmark : IsMark mark) (text : Bytes) :
    ∃ s', log mark text s = .ok () s' ∧ Adds [traceLine indent s.markWidth mark text] s s' := by
  have hline : Template.message (indent ++ bytes "%v %v")
      [.text (padMark s.markWidth mark), .text text] = traceLine indent s.markWidth mark text := by
    rw [Template.message_line hindent, padMark_eq hmark, traceLine]
  obtain ⟨h, hrecord, hlines, hcrash⟩ := Host.record_adds hs.calm
    (traceLine indent s.markWidth mark text)
  have hlength : mark.length = 1 := by
    obtain ⟨c, -, hlength⟩ := hmark
    exact hlength
  refine ⟨{ s with markWidth := max s.markWidth mark.length, host := h }, ?_, hlines, ?_, hcrash⟩
  · rw [log_eq, if_pos hs.present]
    simp only [onHost, Act.zoom, hs.logger, hline, hrecord]
  · show max (max s.markWidth mark.length) 1 = max s.markWidth 1
    omega

end

section
variable (hs : s.Recording (bytes "\t") r)

include hs

theorem note_adds (n : Note) :
    ∃ s', note n s = .ok () s' ∧ Adds [noteLine s.markWidth n] s s' := by
  obtain ⟨s', hlog, hadds⟩ := log_adds hs (by decide) (isMark_note n) n.render
  rw [← noteLine_eq] at hadds
  refine ⟨s', ?_, hadds⟩
  unfold note
  rw [Act.get_bind, if_pos hs.present]
  exact hlog

/-- A halt logs its line, unless the flush before it ends everything. -/
theorem halt_traces {α : Type} (e : Error) : Traces [] s ((halt (some e) : M α) s) := by
  have hsettle := settle_adds (some e) s
  unfold halt
  cases hres : settle (some e) s with
  | error a s₁ =>
    rw [hres] at hsettle
    rw [Act.bind_error hres]
    exact hsettle.of_foreign (settle_foreign _ _ _ _ hres)
  | ok reason s₁ =>
    rw [hres] at hsettle
    rw [Act.bind_ok hres, settle_eq_ok hres]
    have hbeside := (settle_beside (some e)).ok hres
    obtain ⟨s₂, hlog, hadds⟩ := log_adds (hs.within hbeside.within hsettle) (by decide) isMark_number
      (bytes "halt error: " ++ e.message)
    have hshield : Act.shield (log (bytes "#") (bytes "halt error: " ++ e.message)) s₁ =
        .ok () s₂ := by simp only [Act.shield, hlog]
    have hwidth : max s₁.markWidth 1 = max s.markWidth 1 := hsettle.width
    have hboth := hsettle.trans hadds
    rw [traceLine_congr hwidth] at hboth
    dsimp only
    rw [Act.bind_ok hshield]
    exact hboth

theorem haltIf_traces (reason : Option Error) : Traces [] s (haltIf reason s) := by
  cases reason with
  | none => exact Adds.refl s
  | some e => exact halt_traces hs e

/-- A text that is written is not logged; a write that fails halts, one that crashes does not. -/
theorem writeText_traces (text : Bytes) : Traces [] s (writeText text s) := by
  have hwrite := onHost_adds (Outlet.writeText_unlogged s.outlet text) s
  unfold writeText
  rw [Act.get_bind]
  cases hres : onHost (s.outlet.writeText text) s with
  | error a s₁ =>
    rw [hres] at hwrite
    rw [Act.bind_error hres]
    exact hwrite.of_foreign (onHost_foreign (Outlet.writeText_foreign s.outlet text) _ _ _ hres)
  | ok w s₁ =>
    rw [hres] at hwrite
    have hbeside := (onHost_beside _).ok hres
    rw [Act.bind_ok hres]
    exact hwrite.traces (haltIf_traces (hs.within hbeside.within hwrite) w.error)

end

/-! ## Instructions -/

/-- The abort of a halt: it carries the reason, unless the flush before it ended everything. -/
def HaltsWith (a : Abort) : Prop := (∃ e, a = .crash (.error (.haltedBy e))) ∨ a = .exit

/-- An instruction is broken off by a halt, or by a crash of a write, if it prints. -/
def BreaksOff (prints : Prop) (outlet : Outlet) (a : Abort) : Prop :=
  HaltsWith a ∨ prints ∧ ∃ text h h', outlet.writeText text h = .error a h'

theorem settle_haltsWith (reason : Option Error) : Act.Aborts HaltsWith (settle reason) := by
  intro s a s' h
  unfold settle at h
  split at h
  · cases h
  split at h
  · cases h
  · cases h
  · cases h; exact .inr rfl

/-- A shield lets nothing through but the end of everything. -/
theorem shield_eq_error {act : M Unit} {a : Abort} (h : Act.shield act s = .error a s') :
    a = .exit ∧ act s = .error .exit s' := by
  unfold Act.shield at h
  split at h
  · cases h
  · next hcrash =>
    cases a with
    | crash value => exact absurd h (hcrash value s')
    | exit => exact ⟨rfl, h⟩

theorem halt_haltsWith {α : Type} (e : Error) : Act.Aborts HaltsWith (halt (some e) : M α) := by
  intro s a s' h
  rcases Act.bind_eq_error.mp h with hsettle | ⟨reason, s₁, hsettle, hrest⟩
  · exact settle_haltsWith _ _ _ _ hsettle
  · rw [settle_eq_ok hsettle] at hrest
    rcases Act.bind_eq_error.mp hrest with hlog | ⟨_, s₂, -, hcrash⟩
    · exact .inr (shield_eq_error hlog).1
    · cases hcrash; exact .inl ⟨e, rfl⟩

theorem haltIf_haltsWith (reason : Option Error) : Act.Aborts HaltsWith (haltIf reason) := by
  cases reason with
  | none => exact Act.aborts_pure _
  | some e => exact halt_haltsWith e

theorem writeText_breaksOff {text : Bytes} {a : Abort} (h : writeText text s = .error a s') :
    BreaksOff True s.outlet a := by
  unfold writeText at h
  rw [Act.get_bind] at h
  rcases Act.bind_eq_error.mp h with hwrite | ⟨w, s₁, -, hhalt⟩
  · obtain ⟨h', hcrash, -⟩ := onHost_eq_error hwrite
    exact .inr ⟨trivial, text, s.host, h', hcrash⟩
  · exact .inl (haltIf_haltsWith w.error _ _ _ hhalt)

theorem Adds.setMachine (h : Adds a s s') (m : Machine) : Adds a { s with machine := m } s' :=
  ⟨h.lines, h.width, h.crashes⟩

theorem Recording.setMachine (hs : s.Recording indent r) (m : Machine) :
    Recording indent r { s with machine := m } :=
  ⟨hs.logger, hs.present, hs.calm⟩

theorem traces_setMachine {α : Type} {m : Machine} {res : EStateM.Result Abort Session α}
    (h : Traces a { s with machine := m } res) : Traces a s res := by
  cases res with
  | ok x s' => exact ⟨h.lines, h.width, h.crashes⟩
  | error e s' => exact ⟨h.lines, h.width, h.crashes⟩

/-- What an instruction of a session that records its lines comes to. -/
structure Plays {α : Type} (prints : Prop) (P : Machine → Prop) (lines : List Bytes) (s : Session)
    (res : EStateM.Result Abort Session α) : Prop where
  traces : Traces lines s res
  machine : P (stateOf res).machine
  breaks : ∀ a s', res = .error a s' → BreaksOff prints s.outlet a

/-- A script logs the lines of its notes, by induction on it: notes are always taken, and once a
write has failed there are none left. -/
theorem play_plays {prints : Prop} {P : Machine → Prop} {taken : List Note} {script : Script}
    (htakes : script.Takes prints P taken) (hs : s.Recording (bytes "\t") r) :
    Plays prints P (taken.map (noteLine s.markWidth)) s (play script s) := by
  induction script generalizing s taken with
  | done m =>
    obtain ⟨rfl, hm⟩ := htakes
    exact ⟨⟨(List.append_nil _).symm, rfl, rfl⟩, hm, fun _ _ h => nomatch h⟩
  | halt reason m =>
    obtain ⟨rfl, hm⟩ := htakes
    have hplay : play (.halt reason m) s = halt (some reason) { s with machine := m } := rfl
    rw [hplay]
    refine ⟨traces_setMachine (halt_traces (hs.setMachine m) reason), ?_, fun a s' h => ?_⟩
    · rw [(halt_beside (some reason) { s with machine := m }).machine]; exact hm
    · exact .inl (halt_haltsWith reason _ _ _ h)
  | fault f m => exact htakes.elim
  | note n m rest ih =>
    obtain ⟨more, rfl, hrest⟩ := htakes
    obtain ⟨s₁, hnote, hadds⟩ := note_adds (hs.setMachine m) n
    have hbeside := (note_beside n).ok hnote
    have hplays := ih hrest ((hs.setMachine m).within hbeside.within hadds)
    have hplay : play (.note n m rest) s = play rest s₁ :=
      Act.bind_ok (k := fun _ => play rest) hnote
    rw [hplay]
    refine ⟨?_, hplays.machine, fun a s' h => ?_⟩
    · have htraces := hadds.traces hplays.traces
      rw [map_noteLine_congr hadds.width] at htraces
      exact traces_setMachine htraces
    · have hbreaks := hplays.breaks a s' h
      rwa [hbeside] at hbreaks
  | write text m rest ih =>
    obtain ⟨hprints, rfl, hm, hrest⟩ := htakes
    have hwrite := writeText_traces (hs.setMachine m) text
    have hbeside := writeText_beside text { s with machine := m }
    have hplay : play (.write text m rest) s =
        (writeText text >>= fun _ => play rest) { s with machine := m } := rfl
    rw [hplay]
    cases hres : writeText text { s with machine := m } with
    | error a s₁ =>
      rw [hres] at hwrite hbeside
      rw [Act.bind_error hres]
      refine ⟨traces_setMachine hwrite, ?_, fun a' s' h => ?_⟩
      · exact (congrArg P hbeside.machine).mpr hm
      · cases h
        rcases writeText_breaksOff hres with hhalts | ⟨-, hcrash⟩
        · exact .inl hhalts
        · exact .inr ⟨hprints, hcrash⟩
    | ok _ s₁ =>
      rw [hres] at hwrite hbeside
      rw [Act.bind_ok hres]
      have hplays := ih hrest ((hs.setMachine m).within hbeside.within hwrite)
      refine ⟨traces_setMachine (hwrite.traces hplays.traces), hplays.machine, fun a s' h => ?_⟩
      have hbreaks := hplays.breaks a s' h
      rwa [hbeside] at hbreaks

/-- Behind an instruction comes something that may halt, and leaves the machine alone. -/
theorem Plays.bind {α β : Type} {prints : Prop} {P : Machine → Prop} {act : M α} {k : α → M β}
    (h : Plays prints P a s (act s)) (hk : ∀ x, Act.Relates Beside (k x))
    (htraces : ∀ x s', act s = .ok x s' → Traces [] s' (k x s'))
    (hhalts : ∀ x, Act.Aborts HaltsWith (k x)) : Plays prints P a s ((act >>= k) s) := by
  refine ⟨h.traces.bind htraces, ?_, fun e s' herror => ?_⟩
  · have hm := h.machine
    cases hres : act s with
    | ok x s₁ =>
      rw [hres] at hm
      rw [Act.bind_ok hres, (hk x s₁).machine]
      exact hm
    | error e s₁ =>
      rw [hres] at hm
      rwa [Act.bind_error hres]
  · cases hres : act s with
    | ok x s₁ =>
      rw [Act.bind_ok hres] at herror
      exact .inl (hhalts x _ _ _ herror)
    | error e₁ s₁ =>
      rw [Act.bind_error hres] at herror
      cases herror
      exact h.breaks e s' hres

/-- One instruction of a session that records its lines behind a tab. -/
theorem execute_one_plays {i : Instruction} (hs : s.Recording (bytes "\t") r)
    (hi : s.program.fetch? s.machine.next = some i) (hknown : i.op ∈ Op.known)
    (hlt : s.machine.next < s.program.size) (c : Context) (asked : Nat) :
    ∃ taken, Plays (i.op = .print) (fun m' => s.machine.notes s.program s.strict m' = taken)
      (taken.map (noteLine s.markWidth)) s (execute c 1 asked s) := by
  obtain ⟨taken, htakes⟩ := Machine.step_takes hi hknown
  have hstep : Plays (i.op = .print) (fun m' => s.machine.notes s.program s.strict m' = taken)
      (taken.map (noteLine s.markWidth)) s (step s) := play_plays htakes hs
  have hboth := hstep.bind (fun _ => haltIf_beside (c asked)) (fun _ s₁ hres => ?_)
    fun _ => haltIf_haltsWith (c asked)
  · refine ⟨taken, ?_⟩
    rw [execute_succ, if_pos hlt]
    refine hboth.bind (fun _ _ => rfl) (fun _ s₁ _ => Adds.refl s₁) fun _ => ?_
    exact Act.aborts_get.bind fun _ => Act.aborts_get.bind fun _ => Act.aborts_pure _
  · have hwithin := (play_visits (visits_true (s.machine.step s.program s.strict)) s).2
    have htraces := hstep.traces
    rw [show play (s.machine.step s.program s.strict) s = step s from rfl, hres] at hwithin
    rw [hres] at htraces
    exact haltIf_traces (hs.within hwithin htraces) (c asked)

@[simp] theorem inner_program (s : Session) : s.inner.program = s.program := by rw [inner_eq]

@[simp] theorem inner_machine (s : Session) : s.inner.machine = s.machine := by rw [inner_eq]

@[simp] theorem inner_strict (s : Session) : s.inner.strict = s.strict := by rw [inner_eq]

@[simp] theorem inner_markWidth (s : Session) : s.inner.markWidth = s.markWidth := by rw [inner_eq]

@[simp] theorem inner_outlet (s : Session) : s.inner.outlet = s.outlet := by rw [inner_eq]

theorem Adds.of_inner (h : Adds a s.inner s') (l : Logger) : Adds a s { s' with logger := l } := by
  have hinner := s.inner_eq
  refine ⟨?_, ?_, ?_⟩
  · rw [hinner] at h; exact h.lines
  · rw [hinner] at h; exact h.width
  · rw [hinner] at h; exact h.crashes

/-- The indentation of the lines is gone behind the instructions. -/
theorem Plays.indented {α : Type} {prints : Prop} {P : Machine → Prop} {act : M α}
    (hact : Act.Relates Within act) (h : Plays prints P a s.inner (act s.inner)) :
    Plays prints P a s (indented act s) := by
  obtain ⟨htraces, hmachine, hbreaks⟩ := h
  rw [indented_eq hact]
  cases hres : act s.inner with
  | ok x t =>
    rw [hres] at htraces hmachine
    exact ⟨Adds.of_inner htraces s.logger, hmachine, fun _ _ he => nomatch he⟩
  | error e t =>
    rw [hres] at htraces hmachine
    refine ⟨?_, hmachine, fun _ _ he => ?_⟩
    · have hadds := Adds.of_inner htraces s.logger
      rwa [inner_markWidth] at hadds
    · cases he
      rw [← inner_outlet]
      exact hbreaks e t hres

end Session

end WordStack
