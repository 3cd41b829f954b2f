import WordStack.Proofs.Session.Stepwise

/-!
# How far output and log lines reach

A writer reaches its buffer and the sink behind it, and a logger reaches its journal and the sink
behind that. Everything else on the host stays as it is, whatever the sinks do and whether the
computation returns or not.

* `Reach`: some sinks, some buffers, and perhaps the journal. `Host.Spares`: all else is as before.
* `Outlet.writeText_spares`, `Outlet.flush_spares`: what an outlet leaves alone.
* `Logger.send_spares`, `Session.log_spares`, `Session.halt_spares`: what a log line leaves alone, and
  what the end of a halt does.
-/
namespace WordStack

open Act (stateOf)

/-- What a computation may change of the host. -/
structure Reach where
  sinks : Nat → Prop
  buffers : Nat → Prop
  /-- Whether it may change what the journal keeps beside the place of its output. -/
  journal : Prop

/-- The sinks behind the buffers in reach are in reach. -/
def Reach.Covers (r : Reach) (h : Host) : Prop :=
  ∀ b i, r.buffers b → h.behind? b = some i → r.sinks i

/-- The writer has its sink or its buffer in reach. -/
def Reach.Includes (r : Reach) : Writer → Prop
  | .discard => True
  | .direct i | .flushing i => r.sinks i
  | .buffered b => r.buffers b

/-- The buffers of an outlet and the sinks of its writers. -/
def Outlet.reach (ws : Outlet) (h : Host) : Reach where
  sinks i := ∃ w ∈ ws, w.sink? h = some i
  buffers b := .buffered b ∈ ws
  journal := False

theorem Outlet.covers_reach (ws : Outlet) (h : Host) : (ws.reach h).Covers h :=
  fun b _ hb hi => ⟨.buffered b, hb, hi⟩

theorem Outlet.includes_reach {ws : Outlet} {w : Writer} (h : Host) (hw : w ∈ ws) :
    (ws.reach h).Includes w := by
  cases w with
  | discard => trivial
  | direct i => exact ⟨.direct i, hw, rfl⟩
  | flushing i => exact ⟨.flushing i, hw, rfl⟩
  | buffered b => exact hw

namespace Host

/-- What is out of reach is in `h'` as in `h`. -/
structure Spares (r : Reach) (h h' : Host) : Prop where
  sinks : ∀ i, ¬ r.sinks i → h'.sinks[i]? = h.sinks[i]?
  buffers : ∀ b, ¬ r.buffers b → h'.buffers[b]? = h.buffers[b]?
  behind : h'.behind? = h.behind?
  journal : ¬ r.journal → h'.journal = h.journal
  output : h'.journal.output = h.journal.output
  events : ∃ new, h'.events = new ++ h.events ∧ ∀ i data, .write i data ∈ new → r.sinks i

variable {r : Reach} {h h' h'' : Host} {i b : Nat}

theorem Spares.refl (r : Reach) (h : Host) : h.Spares r h :=
  ⟨fun _ _ => rfl, fun _ _ => rfl, rfl, fun _ => rfl, rfl, [], rfl, fun _ _ hm => nomatch hm⟩

theorem Spares.trans (a : h.Spares r h') (b : h'.Spares r h'') : h.Spares r h'' := by
  obtain ⟨new, hnew, hwrites⟩ := a.events
  obtain ⟨new', hnew', hwrites'⟩ := b.events
  refine ⟨fun i hi => (b.sinks i hi).trans (a.sinks i hi),
    fun c hc => (b.buffers c hc).trans (a.buffers c hc), b.behind.trans a.behind,
    fun hj => (b.journal hj).trans (a.journal hj), b.output.trans a.output, new' ++ new, ?_, ?_⟩
  · rw [hnew', hnew, List.append_assoc]
  · intro i data hm
    rcases List.mem_append.mp hm with hm | hm
    · exact hwrites' i data hm
    · exact hwrites i data hm

theorem Spares.covers (s : h.Spares r h') (hr : r.Covers h) : r.Covers h' := by
  intro b i hb hi
  rw [s.behind] at hi
  exact hr b i hb hi

/-- A sink out of reach receives nothing. -/
theorem Spares.received (s : h.Spares r h') (hi : ¬ r.sinks i) : h'.received i = h.received i := by
  obtain ⟨new, hnew, hwrites⟩ := s.events
  have hnone : new.reverse.flatMap (Event.bytesTo i) = [] := by
    rw [List.flatMap_eq_nil_iff]
    intro e he
    cases e with
    | write j data =>
      have hj : j ≠ i := by rintro rfl; exact hi (hwrites j data (List.mem_reverse.mp he))
      simp [Event.bytesTo, hj]
    | _ => rfl
  rw [Host.received, hnew, List.reverse_append, List.flatMap_append, hnone, List.append_nil,
    Host.received]

theorem Spares.held (s : h.Spares r h') (hb : ¬ r.buffers b) : h'.held b = h.held b := by
  rw [Host.held, s.buffers b hb, Host.held]

/-- A computation, and what comes behind it if it returns. -/
theorem spares_bind {α β : Type} {act : Act Host α} {k : α → Act Host β}
    (hact : h.Spares r (stateOf (act h)))
    (hk : ∀ a h', act h = .ok a h' → h.Spares r h' → h'.Spares r (stateOf (k a h'))) :
    h.Spares r (stateOf ((act >>= k) h)) := by
  cases hrun : act h with
  | ok a h' =>
    rw [hrun] at hact
    rw [Act.bind_ok hrun]
    exact hact.trans (hk a h' hrun hact)
  | error e h' =>
    rw [hrun] at hact
    rwa [Act.bind_error hrun]

/-! ## Sinks -/

theorem Spares.tell (s : h.Spares r h') {e : Event}
    (he : ∀ i data, e = .write i data → r.sinks i) : h.Spares r (h'.tell e) := by
  obtain ⟨new, hnew, hwrites⟩ := s.events
  refine ⟨s.sinks, s.buffers, s.behind, s.journal, s.output, e :: new, ?_, fun i data hm => ?_⟩
  · rw [Host.tell, hnew, List.cons_append]
  · rcases List.mem_cons.mp hm with rfl | hm
    · exact he i data rfl
    · exact hwrites i data hm

section
variable (hi : r.sinks i)

include hi

theorem spares_called (h : Host) (n : Nat) (failed : Bool) : h.Spares r (h.called i n failed) := by
  refine ⟨fun j hj => ?_, fun _ _ => rfl, rfl, fun _ => rfl, rfl, [], rfl, fun _ _ hm => nomatch hm⟩
  have hij : i ≠ j := by rintro rfl; exact hj hi
  simp [called, Array.getElem?_modify, hij]

theorem writeSink_spares (h : Host) (data : Bytes) : h.Spares r (stateOf (writeSink i data h)) := by
  unfold writeSink
  split
  · exact Spares.refl r h
  split
  · exact Spares.refl r h
  split
  · exact spares_called hi h _ _
  · exact spares_called hi h _ _
  · show h.Spares r (if _ then _ else _)
    split
    · exact spares_called hi h _ _
    · exact (spares_called hi h _ _).tell fun j data he => by cases he; exact hi

theorem flushSink_spares (h : Host) : h.Spares r (stateOf (flushSink i h)) := by
  have htold : h.Spares r ((h.called i 0 false).tell (.flush i)) :=
    (spares_called hi h 0 false).tell fun _ _ he => nomatch he
  unfold flushSink
  split
  · exact Spares.refl r h
  · dsimp only
    split
    · exact htold
    · exact htold

end

/-! ## Buffers -/

/-- Another buffer in a place that is in reach. -/
theorem spares_put {old buf : Buffer} (hold : h.buffers[b]? = some old) (hsink : buf.sink = old.sink)
    (hb : r.buffers b) : h.Spares r (h.put b buf) := by
  refine ⟨fun _ _ => rfl, fun c hc => ?_, (resembles_put hold hsink).sinks, fun _ => rfl, rfl, [],
    rfl, fun _ _ hm => nomatch hm⟩
  have hbc : b ≠ c := by rintro rfl; exact hc hb
  rw [getElem?_put hold, if_neg hbc]

section
variable (hb : r.buffers b)

include hb

theorem flushBuffer_spares (hr : r.Covers h) : h.Spares r (stateOf (flushBuffer b h)) := by
  unfold flushBuffer
  rw [Act.get_bind]
  cases hbuf : h.buffers[b]? with
  | none => exact Spares.refl r h
  | some buf =>
    obtain ⟨sink, held, error⟩ := buf
    cases error with
    | some e => exact Spares.refl r h
    | none =>
      dsimp only
      split
      · exact Spares.refl r h
      · have hsink : r.sinks sink := hr b sink hb (by simp [behind?, hbuf])
        refine spares_bind (writeSink_spares hsink h held) fun w h₁ hwrite _ => ?_
        have hbuf₁ : h₁.buffers[b]? = some ⟨sink, held, none⟩ := by
          rw [(replies_of_writeSink hwrite).calls.buffers, hbuf]
        exact spares_put hbuf₁ rfl hb

theorem writeRounds_spares (hr : r.Covers h) (direct : Bool) (rounds : Nat) (data : Bytes)
    (count : Nat) : h.Spares r (stateOf (writeRounds direct b rounds data count h)) := by
  induction rounds generalizing data count h with
  | zero => exact Spares.refl r h
  | succ rounds ih =>
    rw [writeRounds, Act.get_bind]
    cases hbuf : h.buffers[b]? with
    | none => exact Spares.refl r h
    | some buf =>
      dsimp only
      generalize bufferSize - buf.held.length = room
      have hput : ∀ new : Buffer, new.sink = buf.sink → h.Spares r (h.put b new) := fun new hsink =>
        spares_put hbuf hsink hb
      split
      · exact Spares.refl r h
      split
      · exact hput _ rfl
      split
      · -- the sink is called at once
        have hsink : r.sinks buf.sink := hr b buf.sink hb (by simp [behind?, hbuf])
        refine spares_bind (writeSink_spares hsink h data) fun w h₁ hwrite hs => ?_
        have hbuf₁ : h₁.buffers[b]? = some buf := by
          rw [(replies_of_writeSink hwrite).calls.buffers, hbuf]
        have hput₁ : h₁.Spares r (h₁.put b { buf with error := w.error }) :=
          spares_put hbuf₁ rfl hb
        exact hput₁.trans (ih (hput₁.covers (hs.covers hr)) _ _)
      · have hfull := hput { buf with held := buf.held ++ data.take room } rfl
        refine hfull.trans (spares_bind (flushBuffer_spares hb (hfull.covers hr)) ?_)
        intro _ h₁ _ hs
        exact ih (hs.covers (hfull.covers hr)) _ _

end

end Host

/-! ## Writers and outlets -/

section
variable {r : Reach} {h : Host} (hr : r.Covers h)

open Host

include hr

theorem Writer.write_spares {w : Writer} (hw : r.Includes w) (data : Bytes) :
    h.Spares r (stateOf (w.write data h)) := by
  cases w with
  | discard => exact Spares.refl r h
  | direct i | flushing i => exact writeSink_spares hw h data
  | buffered b => exact writeRounds_spares hw hr true _ data 0

theorem Writer.writeText_spares {w : Writer} (hw : r.Includes w) (text : Bytes) :
    h.Spares r (stateOf (w.writeText text h)) := by
  cases w with
  | buffered b => exact writeRounds_spares hw hr false _ text 0
  | _ => exact Writer.write_spares hr hw text

theorem Writer.flush_spares {w : Writer} (hw : r.Includes w) : h.Spares r (stateOf (w.flush h)) := by
  cases w with
  | discard | direct i => exact Spares.refl r h
  | flushing i => exact flushSink_spares hw h
  | buffered b => exact flushBuffer_spares hw hr

namespace Outlet

variable {ws : Outlet} (hws : ∀ w ∈ ws, r.Includes w)

include hws

theorem fanWrite_spares (data : Bytes) :
    h.Spares r (stateOf (fanWrite Writer.write ws data h)) := by
  induction ws generalizing h with
  | nil => exact Spares.refl r h
  | cons w rest ih =>
    refine spares_bind (Writer.write_spares hr (hws w List.mem_cons_self) data) fun a h₁ _ hs => ?_
    split
    · exact Spares.refl r h₁
    split
    · exact Spares.refl r h₁
    · exact ih (hs.covers hr) fun v hv => hws v (List.mem_cons_of_mem _ hv)

theorem attemptAll_spares : h.Spares r (stateOf (attemptAll Writer.flush ws h)) := by
  induction ws generalizing h with
  | nil => exact Spares.refl r h
  | cons w rest ih =>
    refine spares_bind (Writer.flush_spares hr (hws w List.mem_cons_self)) fun _ h₁ _ hs => ?_
    have hrest := ih (hs.covers hr) fun v hv => hws v (List.mem_cons_of_mem _ hv)
    exact spares_bind hrest fun _ h₂ _ _ => Spares.refl r h₂

theorem writeText_spares (text : Bytes) : h.Spares r (stateOf (writeText ws text h)) := by
  match ws with
  | [] => exact Spares.refl r h
  | [w] => exact Writer.writeText_spares hr (hws w List.mem_cons_self) text
  | _ :: _ :: _ => exact fanWrite_spares hr hws text

theorem flush_spares : h.Spares r (stateOf (flush ws h)) := by
  match ws with
  | [] => exact Spares.refl r h
  | [w] => exact Writer.flush_spares hr (hws w List.mem_cons_self)
  | _ :: _ :: _ => exact attemptAll_spares hr hws

end Outlet

end

/-! ## Loggers -/

section
variable {r : Reach} {h : Host}

open Host

theorem Host.record_spares (r : Reach) (h : Host) (place : Nat) (line : Bytes) :
    h.Spares r (stateOf (record place line h)) := by
  have hplain : ∀ recorders, h.Spares r { h with recorders } := fun _ =>
    ⟨fun _ _ => rfl, fun _ _ => rfl, rfl, fun _ => rfl, rfl, [], rfl, fun _ _ hm => nomatch hm⟩
  unfold record
  split
  · exact (Spares.refl r h).tell fun _ _ he => nomatch he
  · dsimp only
    split
    · exact hplain _
    · exact (hplain _).tell fun _ _ he => nomatch he

variable (hj : r.journal)

include hj

theorem Host.spares_journal (h : Host) {j : Journal} (ho : j.output = h.journal.output) :
    h.Spares r { h with journal := j } :=
  ⟨fun _ _ => rfl, fun _ _ => rfl, rfl, fun hn => absurd hj hn, ho, [], rfl, fun _ _ hm => nomatch hm⟩

theorem Host.report_spares (hsink : ∀ i, h.journal.output = some i → r.sinks i)
    (level text : Bytes) (args : List Template.Arg) :
    h.Spares r (stateOf (report level text args h)) := by
  unfold report
  rw [Act.get_bind]
  cases ho : h.journal.output with
  | none => exact Spares.refl r h
  | some i =>
    simp only [modifyJournal, Act.modify_bind]
    generalize lineText h.journal.pending level (Template.message text args) = line
    have hpending : h.Spares r { h with journal := { h.journal with pending := line } } :=
      spares_journal hj h rfl
    split
    · exact hpending
    · refine hpending.trans (spares_bind (writeSink_spares (hsink i ho) _ line) ?_)
      intro w h₁ _ _
      exact spares_journal hj h₁ rfl

theorem Logger.send_spares (l : Logger) (hsink : ∀ i, l.sink? h = some i → r.sinks i)
    (template : Bytes) (args : List Template.Arg) :
    h.Spares r (stateOf (l.send template args h)) := by
  induction l generalizing template with
  | absent => exact Spares.refl r h
  | recorder place => exact record_spares r h place _
  | journal level => exact report_spares hj hsink level template args
  | indented text inner ih => exact ih hsink (text ++ template)

/-- A log line, whatever becomes of it. -/
theorem Session.log_spares {s : Session} (hsink : ∀ i, s.logger.sink? s.host = some i → r.sinks i)
    (mark text : Bytes) : s.host.Spares r (stateOf (log mark text s)).host := by
  rw [log_eq]
  split
  · have hsend := Logger.send_spares hj s.logger hsink (bytes "%v %v")
      [.text (padMark s.markWidth mark), .text text]
    simp only [onHost, Act.zoom]
    cases hrun : s.logger.send (bytes "%v %v") [.text (padMark s.markWidth mark), .text text] s.host
      <;> rw [hrun] at hsend <;> exact hsend
  · exact Spares.refl r s.host

/-- What comes behind the flush of a halt: a last line, and the crash. -/
theorem Session.halt_spares {α : Type} {s s' : Session} {reason e : Option Error}
    (hsettle : settle reason s = .ok e s')
    (hsink : ∀ i, s'.logger.sink? s'.host = some i → r.sinks i) :
    ∃ abort s'', (halt reason : M α) s = .error abort s'' ∧ s'.host.Spares r s''.host := by
  have hlast : ∀ (text : Bytes) (error : Error), ∃ abort s'',
      (do Act.shield (log (bytes "#") text); Act.crash error : M α) s' = .error abort s'' ∧
        s'.host.Spares r s''.host := by
    intro text error
    have hlog := log_spares hj hsink (bytes "#") text
    cases hrun : Act.shield (log (bytes "#") text) s' with
    | ok _ s'' =>
      refine ⟨_, s'', Act.bind_ok hrun, ?_⟩
      unfold Act.shield at hrun
      split at hrun
      · next hcrash => cases hrun; rwa [hcrash] at hlog
      · rwa [hrun] at hlog
    | error abort s'' =>
      refine ⟨_, s'', Act.bind_error hrun, ?_⟩
      unfold Act.shield at hrun
      split at hrun
      · cases hrun
      · rwa [hrun] at hlog
  unfold halt
  rw [Act.bind_ok hsettle]
  cases e with
  | none => exact hlast _ _
  | some error => exact hlast _ _

end

end WordStack
