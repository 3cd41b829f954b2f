import WordStack.Host.Journal
import WordStack.Host.Outlet

/-!
# Text on its way to a sink

What a sink has received and what waits in front of it is together the text that was written to it.
A writer passes a text on if that grows by the text, and no writer to another sink notices.

* `Host.Resembles`, `Host.Keeps`: sinks, buffers and recorders are set up as before.
* `Host.Replies`: one write to a sink that does not crash.
* `Host.Passes`: a writer passed a text on.
* `Outlet.Spreads`: an outlet passed a text on; each sink that only one of its writers passes bytes
  on to got the text once.
-/
namespace WordStack

namespace Act

variable {σ α β : Type} {act : Act σ α} {k : α → Act σ β} {s s' : σ} {a : α} {e : Abort}

theorem bind_ok (h : act s = .ok a s') : (act >>= k) s = k a s' := by
  simp [bind, EStateM.bind, h]

theorem bind_error (h : act s = .error e s') : (act >>= k) s = .error e s' := by
  simp [bind, EStateM.bind, h]

theorem bind_eq_ok {b : β} {s'' : σ} : (act >>= k) s = .ok b s'' ↔
    ∃ a s', act s = .ok a s' ∧ k a s' = .ok b s'' := by
  cases h : act s with
  | ok a s' =>
    rw [bind_ok h]
    constructor
    · intro hk
      exact ⟨a, s', rfl, hk⟩
    · rintro ⟨a, s', hact, hk⟩
      cases hact
      exact hk
  | error e s' =>
    rw [bind_error h]
    constructor
    · intro hk
      cases hk
    · rintro ⟨a, s', hact, -⟩
      cases hact

theorem bind_eq_error {s'' : σ} : (act >>= k) s = .error e s'' ↔
    act s = .error e s'' ∨ ∃ a s', act s = .ok a s' ∧ k a s' = .error e s'' := by
  cases h : act s with
  | ok a s' =>
    rw [bind_ok h]
    constructor
    · intro hk
      exact .inr ⟨a, s', rfl, hk⟩
    · intro hboth
      rcases hboth with hact | ⟨a, s', hact, hk⟩
      · cases hact
      · cases hact
        exact hk
  | error e' s' =>
    rw [bind_error h]
    constructor
    · intro hk
      cases hk
      exact .inl rfl
    · intro hboth
      rcases hboth with hact | ⟨a, s', hact, -⟩
      · cases hact
        rfl
      · cases hact

@[simp] theorem get_bind (k : σ → Act σ β) : (get >>= k : Act σ β) s = k s s := rfl

@[simp] theorem set_bind (k : PUnit → Act σ β) : (set s' >>= k : Act σ β) s = k ⟨⟩ s' := rfl

@[simp] theorem modify_bind (f : σ → σ) (k : PUnit → Act σ β) :
    (modify f >>= k : Act σ β) s = k ⟨⟩ (f s) := rfl

@[simp] theorem pure_apply (a : α) : (pure a : Act σ α) s = .ok a s := rfl

end Act

/-- The bytes of an event that a sink accepted. -/
def Event.bytesTo (i : Nat) : Event → Bytes
  | .write j data => if j = i then data else []
  | _ => []

namespace Host

/-- All bytes that a sink has accepted, in order. -/
def received (h : Host) (i : Nat) : Bytes := h.events.reverse.flatMap (Event.bytesTo i)

/-- Whether a write to a sink has failed. -/
def hasFailed (h : Host) (i : Nat) : Bool := h.sinks[i]?.any (·.past.failed)

/-- The bytes that wait in a buffer. -/
def held (h : Host) (b : Nat) : Bytes := (h.buffers[b]?.map (·.held)).getD []

def kind? (h : Host) (i : Nat) : Option SinkKind := h.sinks[i]?.map (·.kind)

def policy? (h : Host) (i : Nat) : Option SinkPolicy := h.sinks[i]?.map (·.policy)

/-- The sink behind a buffer. -/
def behind? (h : Host) (b : Nat) : Option Nat := h.buffers[b]?.map (·.sink)

/-- The error of a buffer. -/
def failure? (h : Host) (b : Nat) : Option Error := h.buffers[b]?.bind (·.error)

/-- When a recorder crashes. -/
def crash? (h : Host) (r : Nat) : Option (Nat → Option Bytes) := h.recorders[r]?.map (·.crash)

/-- The sinks and buffers of `h'` are set up as those of `h`, but buffers may have met errors. -/
structure Resembles (h h' : Host) : Prop where
  kinds : h'.kind? = h.kind?
  policies : h'.policy? = h.policy?
  sinks : h'.behind? = h.behind?

/-- Everything is set up in `h'` as in `h`. -/
structure Keeps (h h' : Host) : Prop extends Resembles h h' where
  failures : h'.failure? = h.failure?
  crashes : h'.crash? = h.crash?
  output : h'.journal.output = h.journal.output

/-- What has failed in `h` has failed in `h'`. -/
def Remembers (h h' : Host) : Prop := ∀ i, h.hasFailed i = true → h'.hasFailed i = true

variable {h h' h'' : Host} {i : Nat}

theorem Resembles.refl (h : Host) : h.Resembles h := ⟨rfl, rfl, rfl⟩

theorem Resembles.trans (a : h.Resembles h') (b : h'.Resembles h'') : h.Resembles h'' :=
  ⟨b.kinds.trans a.kinds, b.policies.trans a.policies, b.sinks.trans a.sinks⟩

theorem Keeps.refl (h : Host) : h.Keeps h := ⟨Resembles.refl h, rfl, rfl, rfl⟩

theorem Keeps.trans (a : h.Keeps h') (b : h'.Keeps h'') : h.Keeps h'' :=
  ⟨a.toResembles.trans b.toResembles, b.failures.trans a.failures, b.crashes.trans a.crashes,
    b.output.trans a.output⟩

theorem Remembers.refl (h : Host) : h.Remembers h := fun _ hi => hi

theorem Remembers.trans (a : h.Remembers h') (b : h'.Remembers h'') : h.Remembers h'' :=
  fun i hi => b i (a i hi)

theorem remembers_of_sinks (hs : h'.sinks = h.sinks) : h.Remembers h' := by
  intro i hi
  rw [hasFailed, hs]; exact hi

/-! ## Sinks -/

@[simp] theorem received_tell (h : Host) (e : Event) (i : Nat) :
    (h.tell e).received i = h.received i ++ e.bytesTo i := by
  simp [received, tell]

@[simp] theorem received_called (h : Host) (i n j : Nat) (failed : Bool) :
    (h.called i n failed).received j = h.received j := rfl

theorem keeps_tell (h : Host) (e : Event) : h.Keeps (h.tell e) := ⟨⟨rfl, rfl, rfl⟩, rfl, rfl, rfl⟩

theorem keeps_called (h : Host) (i n : Nat) (failed : Bool) : h.Keeps (h.called i n failed) := by
  refine ⟨⟨funext fun j => ?_, funext fun j => ?_, rfl⟩, rfl, rfl, rfl⟩ <;>
  · simp only [kind?, policy?, called, Array.getElem?_modify]
    split <;> simp [Function.comp_def, Sink.called]

theorem remembers_called (h : Host) (i n : Nat) (failed : Bool) :
    h.Remembers (h.called i n failed) := by
  intro j hj
  simp only [hasFailed, called, Array.getElem?_modify] at hj ⊢
  split
  · cases hs : h.sinks[j]? with
    | none => rw [hs] at hj; cases hj
    | some s =>
      have hpast : s.past.failed = true := by simpa [hs] using hj
      simp [Sink.called, hpast]
  · exact hj

theorem hasFailed_called {s : Sink} (hs : h.sinks[i]? = some s) (n : Nat) :
    (h.called i n true).hasFailed i = true := by
  simp [hasFailed, called, Array.getElem?_modify, hs, Sink.called]

/-- What a call of the sink `i` changes, whatever the sink replies. -/
structure Calls (i : Nat) (h h' : Host) : Prop where
  keeps : h.Keeps h'
  remembers : h.Remembers h'
  buffers : h'.buffers = h.buffers
  received : ∀ j, j ≠ i → h'.received j = h.received j

theorem calls_called (h : Host) (i n : Nat) (failed : Bool) : h.Calls i (h.called i n failed) :=
  ⟨h.keeps_called i n failed, h.remembers_called i n failed, rfl, fun _ _ => rfl⟩

theorem Calls.refl (i : Nat) (h : Host) : h.Calls i h :=
  ⟨Keeps.refl h, Remembers.refl h, rfl, fun _ _ => rfl⟩

theorem Calls.tell (hc : h.Calls i h') {e : Event} (he : ∀ j, j ≠ i → e.bytesTo j = []) :
    h.Calls i (h'.tell e) := by
  refine ⟨hc.keeps.trans (h'.keeps_tell e), hc.remembers.trans (remembers_of_sinks rfl),
    hc.buffers, ?_⟩
  intro j hj
  rw [received_tell, hc.received j hj, he j hj, List.append_nil]

/-- A sink that keeps what it takes. -/
def Records (h : Host) (i : Nat) : Prop := ∃ kind, h.kind? i = some kind ∧ kind ≠ .discard

/-- A sink that neither crashes nor ends the computation. -/
def Calm (h : Host) (i : Nat) : Prop :=
  ∀ p, h.policy? i = some p → ∀ past data, ∃ count error, p.write past data = .took count error

/-- A sink that never crashes, and returns an error whenever it takes less than it is given. -/
def Honest (h : Host) (i : Nat) : Prop :=
  ∀ p, h.policy? i = some p → ∀ past data, ∃ count error, p.write past data = .took count error ∧
    (count < data.length → error ≠ none)

/-- A sink that takes all that it is given. -/
def Accepts (h : Host) (i : Nat) : Prop :=
  ∀ p, h.policy? i = some p → ∀ past data, p.write past data = .took data.length none

theorem Honest.calm (hi : h.Honest i) : h.Calm i := by
  intro p hp past data
  obtain ⟨count, error, hw, -⟩ := hi p hp past data
  exact ⟨count, error, hw⟩

theorem Accepts.honest (hi : h.Accepts i) : h.Honest i := by
  intro p hp past data
  exact ⟨_, _, hi p hp past data, fun hlt => absurd hlt (Nat.lt_irrefl _)⟩

/-- The sink `i` was given some bytes and replied with `w`. -/
structure Replies (i : Nat) (data : Bytes) (w : Wrote) (h h' : Host) : Prop where
  calls : h.Calls i h'
  received : h.Records i → h'.received i = h.received i ++ data.take w.count
  count : w.count ≤ data.length
  full : h.Honest i → w.error = none → w.count = data.length
  fails : w.error.isSome = true ∨ w.count < data.length →
    h'.hasFailed i = true ∧ ¬ h.Accepts i
  noHalt : Error.NoHalt w.error

/-- A write that the host takes without calling the sink. -/
theorem replies_of_not_records (hi : ¬ h.Records i) (data : Bytes) :
    h.Replies i data ⟨data.length, none⟩ h :=
  ⟨Calls.refl i h, fun hr => absurd hr hi, Nat.le_refl _, fun _ _ => rfl, by simp, by simp⟩

/-- A write to a sink that returns. -/
theorem replies_of_writeSink {data : Bytes} {w : Wrote} (hwrite : writeSink i data h = .ok w h') :
    h.Replies i data w h' := by
  unfold writeSink at hwrite
  cases hs : h.sinks[i]? with
  | none =>
    rw [hs] at hwrite
    cases hwrite
    refine replies_of_not_records ?_ data
    rintro ⟨kind, hkind, -⟩
    simp [kind?, hs] at hkind
  | some s =>
    have hpolicy : h.policy? i = some s.policy := by simp [policy?, hs]
    simp only [hs] at hwrite
    split at hwrite
    · next hd =>
      cases hwrite
      refine replies_of_not_records ?_ data
      rintro ⟨kind, hkind, hne⟩
      simp only [kind?, hs, Option.map_some, Option.some.injEq] at hkind
      exact absurd (hkind ▸ hd) hne
    · split at hwrite
      · cases hwrite
      · cases hwrite
      · next count error hw =>
        cases hwrite
        refine ⟨?_, ?_, ?_, ?_, ?_, SinkError.noHalt_map error⟩
        · split
          · exact calls_called h i _ _
          · exact (calls_called h i _ _).tell fun j hj => by simp [Event.bytesTo, Ne.symm hj]
        · intro _
          have htake : data.take (data.take count).length = data.take count := by
            simp [List.length_take]
          rw [htake]
          split
          · next hempty => rw [received_called, List.isEmpty_iff.mp hempty, List.append_nil]
          · simp [Event.bytesTo]
        · simp only [List.length_take]; omega
        · intro hhonest he
          obtain ⟨count', error', hw', hshort⟩ := hhonest s.policy hpolicy s.past data
          obtain ⟨rfl, rfl⟩ := WriteReply.took.inj (hw.symm.trans hw')
          have hcount : ¬ count < data.length := fun hlt => hshort hlt (Option.map_eq_none_iff.mp he)
          simp only [List.length_take]; omega
        · intro hfails
          have hflag : (error.isSome || decide ((data.take count).length < data.length)) = true := by
            simpa using hfails
          refine ⟨?_, fun haccepts => ?_⟩
          · rw [hflag]
            split
            · exact hasFailed_called hs _
            · exact hasFailed_called hs _
          · have htook := haccepts s.policy hpolicy s.past data
            obtain ⟨rfl, rfl⟩ := WriteReply.took.inj (hw.symm.trans htook)
            simp at hfails

theorem exists_writeSink (hi : h.Calm i) (data : Bytes) :
    ∃ w h', writeSink i data h = .ok w h' := by
  unfold writeSink
  cases hs : h.sinks[i]? with
  | none => exact ⟨_, h, rfl⟩
  | some s =>
    by_cases hd : s.kind = .discard
    · simp only [hd, if_true]
      exact ⟨_, h, rfl⟩
    · obtain ⟨count, error, hw⟩ := hi s.policy (by simp [policy?, hs]) s.past data
      simp only [hd, if_false, hw]
      exact ⟨_, _, rfl⟩

theorem writeSink_of_calm (hi : h.Calm i) (data : Bytes) :
    ∃ w h', writeSink i data h = .ok w h' ∧ h.Replies i data w h' := by
  obtain ⟨w, h', hwrite⟩ := exists_writeSink hi data
  exact ⟨w, h', hwrite, replies_of_writeSink hwrite⟩

/-- A flush of a sink that returns. -/
theorem calls_of_flushSink {e : Option Error} (hflush : flushSink i h = .ok e h') :
    h.Calls i h' ∧ h'.received = h.received ∧ Error.NoHalt e := by
  unfold flushSink at hflush
  cases hs : h.sinks[i]? with
  | none =>
    rw [hs] at hflush
    cases hflush
    exact ⟨Calls.refl i h, rfl, Error.noHalt_none⟩
  | some s =>
    simp only [hs] at hflush
    split at hflush
    · next error _ =>
      cases hflush
      refine ⟨(calls_called h i 0 false).tell fun j _ => rfl, funext fun j => ?_,
        SinkError.noHalt_map error⟩
      simp [Event.bytesTo]
    · cases hflush

theorem exists_flushSink
    (hi : ∀ p, h.policy? i = some p → ∀ past, ∃ e, p.flush past = .done e) :
    ∃ e h', flushSink i h = .ok e h' := by
  unfold flushSink
  cases hs : h.sinks[i]? with
  | none => exact ⟨none, h, rfl⟩
  | some s =>
    obtain ⟨e, he⟩ := hi s.policy (by simp [policy?, hs]) s.past
    simp only [he]
    exact ⟨_, _, rfl⟩

theorem flushSink_of_done (hi : ∀ p, h.policy? i = some p → ∀ past, p.flush past = .done none) :
    ∃ h', flushSink i h = .ok none h' ∧ h.Calls i h' ∧ h'.received = h.received := by
  have hflush : ∃ h', flushSink i h = .ok none h' := by
    unfold flushSink
    cases hs : h.sinks[i]? with
    | none => exact ⟨h, rfl⟩
    | some s =>
      simp only [hi s.policy (by simp [policy?, hs])]
      exact ⟨_, rfl⟩
  obtain ⟨h', hflush⟩ := hflush
  obtain ⟨hcalls, hreceived, -⟩ := calls_of_flushSink hflush
  exact ⟨h', hflush, hcalls, hreceived⟩

end Host

/-! ## Writers -/

namespace Writer

/-- The sink that a writer passes bytes on to. -/
def sink? (h : Host) : Writer → Option Nat
  | discard => none
  | direct i | flushing i => some i
  | buffered b => h.behind? b

/-- The bytes that wait in front of the sink. -/
def held (h : Host) : Writer → Bytes
  | buffered b => h.held b
  | _ => []

theorem held_eq {h h' : Host} (hb : h'.buffers = h.buffers) (w : Writer) :
    w.held h' = w.held h := by
  cases w <;> simp [held, Host.held, hb]

/-- The error that a writer has kept. -/
def failure? (h : Host) : Writer → Option Error
  | buffered b => h.failure? b
  | _ => none

end Writer

namespace Host

/-- The writer `w` passed a text on, and no writer to another sink noticed. -/
structure Passes (w : Writer) (text : Bytes) (h h' : Host) : Prop where
  keeps : h.Keeps h'
  given : ∀ i, w.sink? h = some i → h.Records i →
    h'.received i ++ w.held h' = h.received i ++ w.held h ++ text
  others : ∀ (v : Writer) i, v.sink? h = some i → w.sink? h ≠ some i →
    h'.received i ++ v.held h' = h.received i ++ v.held h

variable {h h' h'' : Host} {w : Writer} {a text : Bytes}

namespace Resembles

variable (r : h.Resembles h')

include r

theorem sink? (w : Writer) : w.sink? h' = w.sink? h := by
  cases w <;> simp [Writer.sink?, r.sinks]

theorem map_sink? (ws : Outlet) : ws.map (·.sink? h') = ws.map (·.sink? h) :=
  List.map_congr_left fun w _ => r.sink? w

theorem records (i : Nat) : h'.Records i ↔ h.Records i := by rw [Records, Records, r.kinds]

theorem honest (i : Nat) : h'.Honest i ↔ h.Honest i := by rw [Honest, Honest, r.policies]

theorem accepts (i : Nat) : h'.Accepts i ↔ h.Accepts i := by rw [Accepts, Accepts, r.policies]

end Resembles

theorem Keeps.writer_failure? (k : h.Keeps h') (w : Writer) : w.failure? h' = w.failure? h := by
  cases w <;> simp [Writer.failure?, k.failures]

theorem Passes.refl (w : Writer) (h : Host) : h.Passes w [] h :=
  ⟨Keeps.refl h, fun _ _ _ => by simp, fun _ _ _ _ => rfl⟩

theorem Passes.trans (hp : Passes w a h h') (hq : Passes w text h' h'') :
    Passes w (a ++ text) h h'' := by
  refine ⟨hp.keeps.trans hq.keeps, ?_, ?_⟩
  · intro i hi hr
    rw [hq.given i (by rw [hp.keeps.sink?, hi]) ((hp.keeps.records i).mpr hr), hp.given i hi hr,
      List.append_assoc]
  · intro v i hv hne
    rw [hq.others v i (by rw [hp.keeps.sink?, hv]) (by rw [hp.keeps.sink?]; exact hne),
      hp.others v i hv hne]

theorem Calls.held {i : Nat} (hc : h.Calls i h') (w : Writer) : w.held h' = w.held h :=
  w.held_eq hc.buffers

/-- A call of the sink passes on what the sink received. -/
theorem Calls.passes {i : Nat} (hc : h.Calls i h') (hw : w.sink? h = some i)
    (hr : h.Records i → h'.received i = h.received i ++ text) (hheld : w.held h = []) :
    Passes w text h h' := by
  refine ⟨hc.keeps, ?_, ?_⟩
  · intro j hj hrec
    obtain rfl : i = j := by rw [hw] at hj; exact Option.some.inj hj
    rw [hr hrec, hc.held, hheld]; simp
  · intro v j hv hne
    have hij : j ≠ i := by rintro rfl; exact hne hw
    rw [hc.received j hij, hc.held]

/-! ## Buffers -/

/-- Another buffer in a place. -/
def put (h : Host) (b : Nat) (buf : Buffer) : Host :=
  { h with buffers := h.buffers.setIfInBounds b buf }

section
variable {b : Nat} {old : Buffer} (hb : h.buffers[b]? = some old) {buf : Buffer}

include hb

theorem sink?_buffered : Writer.sink? h (.buffered b) = some old.sink := by
  simp [Writer.sink?, behind?, hb]

theorem held_buffered : Writer.held h (.buffered b) = old.held := by
  simp [Writer.held, Host.held, hb]

theorem getElem?_put (buf : Buffer) (c : Nat) :
    (h.put b buf).buffers[c]? = if b = c then some buf else h.buffers[c]? := by
  obtain ⟨hlt, -⟩ := Array.getElem?_eq_some_iff.mp hb
  simp only [put, Array.getElem?_setIfInBounds]
  split
  · next h => subst h; simp
  · rfl

theorem getElem?_put_self (buf : Buffer) : (h.put b buf).buffers[b]? = some buf := by
  rw [getElem?_put hb, if_pos rfl]

theorem held_put_of_ne {v : Writer} (hv : v ≠ .buffered b) (buf : Buffer) :
    v.held (h.put b buf) = v.held h := by
  cases v with
  | buffered c =>
    have hbc : b ≠ c := by rintro rfl; exact hv rfl
    simp [Writer.held, Host.held, getElem?_put hb, hbc]
  | _ => rfl

theorem resembles_put (hsink : buf.sink = old.sink) : h.Resembles (h.put b buf) := by
  refine ⟨rfl, rfl, funext fun c => ?_⟩
  simp only [behind?, getElem?_put hb]
  split
  · next h => subst h; simp [hb, hsink]
  · rfl

theorem keeps_put (hsink : buf.sink = old.sink) (herror : buf.error = old.error) :
    h.Keeps (h.put b buf) := by
  refine ⟨resembles_put hb hsink, funext fun c => ?_, rfl, rfl⟩
  simp only [failure?, getElem?_put hb]
  split
  · next h => subst h; simp [hb, herror]
  · rfl

/-- A call of the sink behind a buffer, and another buffer in its place: what the sink has received
and what waits now. -/
theorem Calls.given_put {sent : Bytes} (hc : h.Calls old.sink h')
    (hr : h.Records old.sink → h'.received old.sink = h.received old.sink ++ sent) {i : Nat}
    (hi : Writer.sink? h (.buffered b) = some i) (hrec : h.Records i) :
    (h'.put b buf).received i ++ Writer.held (h'.put b buf) (.buffered b) =
      h.received i ++ (sent ++ buf.held) := by
  obtain rfl : old.sink = i := by rw [sink?_buffered hb] at hi; exact Option.some.inj hi
  have hb' : h'.buffers[b]? = some old := by rw [hc.buffers, hb]
  rw [held_buffered (getElem?_put_self hb' buf)]
  show h'.received old.sink ++ buf.held = _
  rw [hr hrec, List.append_assoc]

theorem Calls.others_put (hc : h.Calls old.sink h') (v : Writer) {i : Nat}
    (hv : v.sink? h = some i) (hne : Writer.sink? h (.buffered b) ≠ some i) :
    (h'.put b buf).received i ++ v.held (h'.put b buf) = h.received i ++ v.held h := by
  have hb' : h'.buffers[b]? = some old := by rw [hc.buffers, hb]
  have hi : i ≠ old.sink := by rintro rfl; exact hne (sink?_buffered hb)
  have hvb : v ≠ .buffered b := by rintro rfl; exact hne hv
  rw [held_put_of_ne hb' hvb, hc.held]
  show h'.received i ++ _ = _
  rw [hc.received i hi]

/-- Of what waited in a buffer and a further text the sink received some, and the rest waits. -/
theorem Calls.passes_put {sent : Bytes} (hc : h.Calls old.sink h') (hsink : buf.sink = old.sink)
    (herror : buf.error = old.error)
    (hr : h.Records old.sink → h'.received old.sink = h.received old.sink ++ sent)
    (htext : sent ++ buf.held = old.held ++ text) :
    Passes (.buffered b) text h (h'.put b buf) := by
  have hb' : h'.buffers[b]? = some old := by rw [hc.buffers, hb]
  refine ⟨hc.keeps.trans (keeps_put hb' hsink herror), ?_, fun v i hv hne =>
    hc.others_put hb v hv hne⟩
  intro i hi hrec
  rw [hc.given_put hb hr hi hrec, htext, held_buffered hb, List.append_assoc]

/-- More bytes wait in a buffer. -/
theorem passes_put (text : Bytes) :
    Passes (.buffered b) text h (h.put b { old with held := old.held ++ text }) :=
  (Calls.refl old.sink h).passes_put hb rfl rfl (fun _ => (List.append_nil _).symm) rfl

end

end Host

/-! ## Outlets -/

namespace Outlet

open Host

/-- The sink `i` keeps what it takes, and `w` is the only writer of the outlet that passes bytes on
to it. -/
structure Feeds (h : Host) (ws : Outlet) (w : Writer) (i : Nat) : Prop where
  mem : w ∈ ws
  sink : w.sink? h = some i
  records : h.Records i
  once : (ws.map (·.sink? h)).count (some i) = 1

/-- The writers of an outlet passed a text on, and no writer to another sink noticed. -/
structure Spreads (ws : Outlet) (text : Bytes) (h h' : Host) : Prop where
  keeps : h.Keeps h'
  given : ∀ w i, Feeds h ws w i → h'.received i ++ w.held h' = h.received i ++ w.held h ++ text
  others : ∀ (v : Writer) i, v.sink? h = some i → some i ∉ ws.map (·.sink? h) →
    h'.received i ++ v.held h' = h.received i ++ v.held h

variable {h h' h'' : Host} {w v : Writer} {ws : Outlet} {text : Bytes} {i : Nat}

/-- A sink that an outlet feeds gets its bytes from the first writer or from the others. -/
theorem Feeds.cons_cases (hf : Feeds h (w :: ws) v i) :
    v = w ∧ w.sink? h = some i ∧ some i ∉ ws.map (·.sink? h) ∨
      w.sink? h ≠ some i ∧ Feeds h ws v i := by
  obtain ⟨hmem, hsink, hrec, honce⟩ := hf
  rw [List.map_cons, List.count_cons] at honce
  by_cases hw : w.sink? h = some i
  · have hnone : some i ∉ ws.map (·.sink? h) := by
      rw [← List.count_eq_zero]; simp [hw] at honce; simpa using honce
    rcases List.mem_cons.mp hmem with rfl | hmem
    · exact .inl ⟨rfl, hw, hnone⟩
    · exact absurd (hsink ▸ List.mem_map_of_mem hmem) hnone
  · rcases List.mem_cons.mp hmem with rfl | hmem
    · exact absurd hsink hw
    · exact .inr ⟨hw, hmem, hsink, hrec, by simpa [hw] using honce⟩

theorem Feeds.resembles (hf : Feeds h ws w i) (r : h.Resembles h') : Feeds h' ws w i :=
  ⟨hf.mem, by rw [r.sink?, hf.sink], (r.records i).mpr hf.records, by rw [r.map_sink?, hf.once]⟩

theorem Spreads.nil (h : Host) : Spreads [] text h h :=
  ⟨Keeps.refl h, (fun _ _ hf => nomatch hf.mem), fun _ _ _ _ => rfl⟩

theorem Spreads.cons (hp : h.Passes w text h') (hs : Spreads ws text h' h'') :
    Spreads (w :: ws) text h h'' := by
  have hk := hp.keeps
  refine ⟨hk.trans hs.keeps, ?_, ?_⟩
  · intro v i hf
    rcases hf.cons_cases with ⟨rfl, hsink, hnone⟩ | ⟨hw, hf'⟩
    · rw [hs.others v i (by rw [hk.sink?, hsink]) (by rw [hk.map_sink?]; exact hnone),
        hp.given i hsink hf.records]
    · rw [hs.given v i (hf'.resembles hk.toResembles), hp.others v i hf'.sink hw]
  · intro v i hv hi
    rw [List.map_cons, List.mem_cons, not_or] at hi
    rw [hs.others v i (by rw [hk.sink?, hv]) (by rw [hk.map_sink?]; exact hi.2),
      hp.others v i hv (Ne.symm hi.1)]

theorem Spreads.single (hp : h.Passes w text h') : Spreads [w] text h h' :=
  Spreads.cons hp (Spreads.nil h')

end Outlet

end WordStack
