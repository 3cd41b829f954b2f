import WordStack.Proofs.Host.Passing

/-!
# What a write or a flush that returned has done

Nothing is asked of the sinks here: they may fail, take less than they are given and say nothing, or
crash. Of a write or a flush that returned all the same it can be said what it passed on, and that
what has failed stays so: a sink does not forget that a write failed, and a buffer keeps its error
and returns it again and again. So from a flush at the end that returned without an error it follows
that all writes before it passed on what they were given. No halt comes out of a sink, so none is
kept and none is returned, if none was kept at first.

* `Host.Lags`: a writer passed on a beginning of a text, and no writer to another sink noticed.
* `Host.Empties`: a flush passed on all that waited.
* `Host.Sticks`: what has failed stays so.
* `Host.flushes_of_flushBuffer`, `Host.fills_of_writeRounds`: what a buffer does.
* `Outlet.Sound`: no error is kept, and no lone sink came up short.
* `Outlet.spreads_of_writeText`, `Outlet.empties_of_flush`: what an outlet does.
-/
namespace WordStack

/-- A write to the sink behind the writer has failed, since that does not take all that it is
given. -/
def Writer.Failed (h : Host) (w : Writer) : Prop :=
  ∃ i, w.sink? h = some i ∧ h.hasFailed i = true ∧ ¬ h.Accepts i

namespace Host

/-- The writer `w` passed on a beginning of a text, and no writer to another sink noticed. -/
structure Lags (w : Writer) (text : Bytes) (h h' : Host) : Prop where
  resembles : h.Resembles h'
  given : ∀ i, w.sink? h = some i → h.Records i →
    h'.received i ++ w.held h' <+: h.received i ++ w.held h ++ text
  others : ∀ (v : Writer) i, v.sink? h = some i → w.sink? h ≠ some i →
    h'.received i ++ v.held h' = h.received i ++ v.held h

/-- A flush of the writer `w` passed on all that waited. -/
structure Empties (w : Writer) (h h' : Host) : Prop where
  passes : h.Passes w [] h'
  held : w.held h' = []
  others : ∀ v : Writer, v.held h = [] → v.held h' = []

/-- All is set up in `h'` as in `h`, and what has failed stays so; no buffer came to keep a halt. -/
structure Sticks (h h' : Host) : Prop extends Resembles h h' where
  remembers : h.Remembers h'
  failures : ∀ b e, h.failure? b = some e → h'.failure? b = some e
  noHalt : ∀ b, Error.NoHalt (h.failure? b) → Error.NoHalt (h'.failure? b)

variable {h h' h'' : Host} {w : Writer} {a text : Bytes}

theorem Resembles.failed (r : h.Resembles h') (m : h.Remembers h') (hw : w.Failed h) :
    w.Failed h' := by
  obtain ⟨i, hi, hfailed, haccepts⟩ := hw
  exact ⟨i, by rw [r.sink?, hi], m i hfailed, by rw [r.accepts]; exact haccepts⟩

theorem Passes.lags (hp : h.Passes w text h') : h.Lags w text h' :=
  ⟨hp.keeps.toResembles, fun i hi hrec => hp.given i hi hrec ▸ List.prefix_rfl, hp.others⟩

theorem Lags.widen (hl : h.Lags w a h') (ha : a <+: text) : h.Lags w text h' := by
  refine ⟨hl.resembles, fun i hi hrec => ?_, hl.others⟩
  exact (hl.given i hi hrec).trans ((List.prefix_append_right_inj _).mpr ha)

/-- A text that was passed on, and a beginning of the next one. -/
theorem Passes.lags_trans (hp : h.Passes w a h') (hl : h'.Lags w text h'') :
    h.Lags w (a ++ text) h'' := by
  refine ⟨hp.keeps.toResembles.trans hl.resembles, ?_, ?_⟩
  · intro i hi hrec
    have hgiven := hl.given i (by rw [hp.keeps.sink?, hi]) ((hp.keeps.records i).mpr hrec)
    rwa [hp.given i hi hrec, List.append_assoc _ a] at hgiven
  · intro v i hv hne
    rw [hl.others v i (by rw [hp.keeps.sink?, hv]) (by rw [hp.keeps.sink?]; exact hne),
      hp.others v i hv hne]

/-! ## What has failed -/

theorem Sticks.refl (h : Host) : h.Sticks h :=
  ⟨Resembles.refl h, Remembers.refl h, fun _ _ hb => hb, fun _ hb => hb⟩

theorem Sticks.trans (s : h.Sticks h') (s' : h'.Sticks h'') : h.Sticks h'' :=
  ⟨s.toResembles.trans s'.toResembles, s.remembers.trans s'.remembers,
    fun b e hb => s'.failures b e (s.failures b e hb), fun b hb => s'.noHalt b (s.noHalt b hb)⟩

theorem Keeps.sticks (k : h.Keeps h') (m : h.Remembers h') : h.Sticks h' :=
  ⟨k.toResembles, m, fun b e hb => by rw [k.failures, hb], fun b hb => by rwa [k.failures]⟩

theorem Calls.sticks {i : Nat} (hc : h.Calls i h') : h.Sticks h' := hc.keeps.sticks hc.remembers

/-- Where no error is kept, none was kept before. -/
theorem Sticks.failure?_eq_none (s : h.Sticks h') {b : Nat} (hb : h'.failure? b = none) :
    h.failure? b = none := by
  cases hf : h.failure? b with
  | none => rfl
  | some e => rw [s.failures b e hf] at hb; cases hb

theorem Sticks.writer_failure? (s : h.Sticks h') (hw : w.failure? h' = none) :
    w.failure? h = none := by
  cases w with
  | buffered b => exact s.failure?_eq_none hw
  | _ => rfl

theorem Sticks.writer_noHalt (s : h.Sticks h') (hw : Error.NoHalt (w.failure? h)) :
    Error.NoHalt (w.failure? h') := by
  cases w with
  | buffered b => exact s.noHalt b hw
  | _ => exact Error.noHalt_none

theorem Sticks.hasFailed_eq_false (s : h.Sticks h') {i : Nat} (hi : h'.hasFailed i = false) :
    h.hasFailed i = false := by
  cases hf : h.hasFailed i with
  | false => rfl
  | true => rw [s.remembers i hf] at hi; cases hi

/-! ## Buffers -/

section
variable {b : Nat} {old : Buffer} (hb : h.buffers[b]? = some old) {buf : Buffer}

include hb

theorem failure?_put (buf : Buffer) : (h.put b buf).failure? b = buf.error := by
  simp [failure?, getElem?_put hb]

/-- Another buffer in place of one without an error. -/
theorem sticks_put (hsink : buf.sink = old.sink) (herror : old.error = none)
    (hkept : Error.NoHalt buf.error) : h.Sticks (h.put b buf) := by
  refine ⟨resembles_put hb hsink, remembers_of_sinks rfl, fun c e hc => ?_, fun c hc => ?_⟩
  · simp only [failure?, getElem?_put hb]
    split
    · next hbc =>
      subst hbc
      simp [failure?, hb, herror] at hc
    · exact hc
  · simp only [failure?, getElem?_put hb]
    split
    · exact hkept
    · exact hc

/-- Of what waited in a buffer and a further text the sink received a part, and of the rest at least
the end is lost. -/
theorem Calls.lags_put {sent : Bytes} (hc : h.Calls old.sink h') (hsink : buf.sink = old.sink)
    (hr : h.Records old.sink → h'.received old.sink = h.received old.sink ++ sent)
    (htext : sent ++ buf.held <+: old.held ++ text) :
    h.Lags (.buffered b) text (h'.put b buf) := by
  have hb' : h'.buffers[b]? = some old := by rw [hc.buffers, hb]
  refine ⟨hc.keeps.toResembles.trans (resembles_put hb' hsink), ?_, fun v i hv hne =>
    hc.others_put hb v hv hne⟩
  intro i hi hrec
  rw [hc.given_put hb hr hi hrec, held_buffered hb, List.append_assoc]
  exact (List.prefix_append_right_inj _).mpr htext

/-- A buffer that keeps the error of its sink. -/
theorem Replies.failed_put {data : Bytes} {r : Wrote} (hreply : h.Replies old.sink data r h')
    (hr : r.error.isSome = true ∨ r.count < data.length) (hsink : buf.sink = old.sink) :
    Writer.Failed (h'.put b buf) (.buffered b) := by
  have hb' : h'.buffers[b]? = some old := by rw [hreply.calls.buffers, hb]
  obtain ⟨hfailed, haccepts⟩ := hreply.fails hr
  refine ⟨buf.sink, sink?_buffered (getElem?_put_self hb' buf), ?_, ?_⟩
  · rw [hsink]; exact hfailed
  · rw [hsink]
    exact fun ha => haccepts ((hreply.calls.keeps.accepts _).mp ha)

/-- The sink took all that waited. -/
theorem Replies.empties_put {r : Wrote} (hreply : h.Replies old.sink old.held r h')
    (hfull : ¬ r.count < old.held.length) (hsink : buf.sink = old.sink)
    (herror : buf.error = old.error) (hheld : buf.held = []) :
    h.Empties (.buffered b) (h'.put b buf) := by
  have hb' : h'.buffers[b]? = some old := by rw [hreply.calls.buffers, hb]
  have hcount : old.held.take r.count = old.held := List.take_of_length_le (by omega)
  have hempty : Writer.held (h'.put b buf) (.buffered b) = [] := by
    rw [held_buffered (getElem?_put_self hb' buf), hheld]
  refine ⟨hreply.calls.passes_put hb hsink herror hreply.received ?_, hempty, fun v hv => ?_⟩
  · rw [hcount, hheld]
  · by_cases hvb : v = .buffered b
    · rw [hvb, hempty]
    · rw [held_put_of_ne hb' hvb, hreply.calls.held, hv]

end

theorem empties_refl {b : Nat} (hheld : h.held b = []) : h.Empties (.buffered b) h :=
  ⟨Passes.refl _ h, hheld, fun _ hv => hv⟩

/-- What a flush of a writer that returned has done. It loses nothing, whether it fails or not. -/
structure Flushes (w : Writer) (e : Option Error) (h h' : Host) : Prop where
  lags : h.Lags w [] h'
  sticks : h.Sticks h'
  empties : e = none → h.Empties w h'
  failure : e = none → w.failure? h' = none
  noHalt : Error.NoHalt (w.failure? h) → Error.NoHalt e

/-- A flush gives the sink all that waits, or keeps what the sink did not take, and the error. -/
theorem flushes_of_flushBuffer {b : Nat} {e : Option Error} (hflush : flushBuffer b h = .ok e h') :
    h.Flushes (.buffered b) e h' ∧ h'.failure? b = e ∧
      (h.failure? b = none → e.isSome = true → Writer.Failed h' (.buffered b)) := by
  -- what an error that is kept says of a flush that did not fail
  suffices hall : h.Lags (.buffered b) [] h' ∧ h.Sticks h' ∧ (e = none → h.Empties (.buffered b) h') ∧
      h'.failure? b = e ∧ (h.failure? b = none → e.isSome = true → Writer.Failed h' (.buffered b)) by
    obtain ⟨hl, hs, hempties, hkept, hfails⟩ := hall
    exact ⟨⟨hl, hs, hempties, fun he => hkept.trans he, fun hb => hkept ▸ hs.noHalt b hb⟩, hkept,
      hfails⟩
  have hsame := (Passes.refl (.buffered b) h).lags
  unfold flushBuffer at hflush
  rw [Act.get_bind] at hflush
  cases hb : h.buffers[b]? with
  | none =>
    simp only [hb] at hflush
    cases hflush
    exact ⟨hsame, Sticks.refl h, fun _ => empties_refl (by simp [Host.held, hb]),
      by simp [failure?, hb], fun _ he => by cases he⟩
  | some buf =>
    obtain ⟨sink, held, error⟩ := buf
    simp only [hb] at hflush
    cases error with
    | some error =>
      cases hflush
      refine ⟨hsame, Sticks.refl h, by simp, by simp [failure?, hb], fun hf => ?_⟩
      simp [failure?, hb] at hf
    | none =>
      simp only at hflush
      split at hflush
      · next hempty =>
        cases hflush
        have hheld : h.held b = [] := by simpa [Host.held, hb] using hempty
        exact ⟨hsame, Sticks.refl h, fun _ => empties_refl hheld, by simp [failure?, hb],
          fun _ he => by cases he⟩
      · obtain ⟨r, h₁, hwrite, hset⟩ := Act.bind_eq_ok.mp hflush
        have hreply := replies_of_writeSink hwrite
        have hb₁ : h₁.buffers[b]? = some ⟨sink, held, none⟩ := by rw [hreply.calls.buffers, hb]
        have hsticks (buf : Buffer) (hsink : buf.sink = sink) (hkept : Error.NoHalt buf.error) :
            h.Sticks (h₁.put b buf) := hreply.calls.sticks.trans (sticks_put hb₁ hsink rfl hkept)
        have herror : (r.error <|> if r.count < held.length then some .shortWrite else none) = e := by
          cases hset; rfl
        have hnoHalt : Error.NoHalt e := by
          rw [← herror]
          refine hreply.noHalt.orElse ?_
          split
          · exact Error.noHalt_some.mpr rfl
          · exact Error.noHalt_none
        rw [herror] at hset
        cases e with
        | none =>
          have hfull : r.error = none ∧ ¬ r.count < held.length := by simpa using herror
          have hempties : h.Empties (.buffered b) (h₁.put b ⟨sink, [], none⟩) :=
            hreply.empties_put hb hfull.2 rfl rfl rfl
          cases hset
          exact ⟨hempties.passes.lags, hsticks _ rfl hnoHalt, fun _ => hempties,
            failure?_put hb₁ _, by simp⟩
        | some error =>
          have hshort : r.error.isSome = true ∨ r.count < held.length := by
            cases hr : r.error with
            | some _ => exact .inl rfl
            | none =>
              have hlt : r.count < held.length ∧ Error.shortWrite = error := by
                simpa [hr] using herror
              exact .inr hlt.1
          cases hset
          refine ⟨hreply.calls.lags_put hb rfl hreply.received ?_, hsticks _ rfl hnoHalt, by simp,
            failure?_put hb₁ _, fun _ _ => hreply.failed_put hb hshort rfl⟩
          simp

/-- What a round of a write that does not fit comes to: the sink has received all but the rest of the
data, and nothing waits, or the sink has failed and the buffer has kept the error. -/
structure Round (direct : Bool) (b : Nat) (data : Bytes) (size : Nat) (h h₁ : Host) : Prop where
  nonempty : 0 < data.length
  bound : size ≤ data.length
  sticks : h.Sticks h₁
  passes : h₁.failure? b = none → h.Passes (.buffered b) (data.take size) h₁ ∧ h₁.held b = [] ∧
    (h.held b = [] → (direct = true → ∀ i, h.behind? b = some i → h.Honest i) → 0 < size)
  fails : h₁.failure? b ≠ none →
    h.Lags (.buffered b) data h₁ ∧ Writer.Failed h₁ (.buffered b)

section
variable {direct : Bool} {b : Nat} {held : Bytes} {sink : Nat} {data : Bytes} {rounds count : Nat}
  {r : Wrote}

/-- While nothing waits, the sink may get the data at once. -/
theorem Replies.round (hb : h.buffers[b]? = some ⟨sink, [], none⟩)
    (hreply : h.Replies sink data r h') (hdata : 0 < data.length) :
    h.Round true b data r.count (h'.put b ⟨sink, [], r.error⟩) := by
  have hb' : h'.buffers[b]? = some ⟨sink, [], none⟩ := by rw [hreply.calls.buffers, hb]
  refine ⟨hdata, hreply.count,
    hreply.calls.sticks.trans (sticks_put hb' rfl rfl hreply.noHalt), ?_, ?_⟩
  · rw [failure?_put hb']
    intro herror
    refine ⟨hreply.calls.passes_put hb rfl herror hreply.received (by simp),
      held_buffered (getElem?_put_self hb' _), fun _ hhonest => ?_⟩
    rw [hreply.full (hhonest rfl sink (by simp [behind?, hb])) herror]
    exact hdata
  · rw [failure?_put hb']
    intro herror
    refine ⟨hreply.calls.lags_put hb rfl hreply.received ?_,
      hreply.failed_put hb (.inl (Option.isSome_iff_ne_none.mpr herror)) rfl⟩
    simpa using List.take_prefix r.count data

/-- The buffer is filled and flushed. -/
theorem round_of_flushBuffer {room : Nat} {e : Option Error}
    (hb : h.buffers[b]? = some ⟨sink, held, none⟩) (hroom : held = [] → 0 < room)
    (hfits : ¬ data.length ≤ room)
    (hflush : flushBuffer b (h.put b ⟨sink, held ++ data.take room, none⟩) = .ok e h') :
    h.Round direct b data room h' := by
  have hp := passes_put hb (data.take room)
  have hs : h.Sticks (h.put b ⟨sink, held ++ data.take room, none⟩) :=
    sticks_put hb rfl rfl Error.noHalt_none
  obtain ⟨hflushes, hkept, hfails⟩ := flushes_of_flushBuffer hflush
  have hheld : h.held b = held := by simp [Host.held, hb]
  refine ⟨by omega, by omega, hs.trans hflushes.sticks, ?_, ?_⟩
  · rw [hkept]
    intro he
    have hempties := hflushes.empties he
    have hpq := hp.trans hempties.passes
    rw [List.append_nil] at hpq
    exact ⟨hpq, hempties.held, fun hnil _ => hroom (hheld.symm.trans hnil)⟩
  · rw [hkept]
    intro he
    refine ⟨(hp.lags_trans hflushes.lags).widen ?_,
      hfails (failure?_put hb _) (Option.isSome_iff_ne_none.mpr he)⟩
    rw [List.append_nil]
    exact List.take_prefix room data

/-- What a write through a buffer may do: it finds an error that was kept, it passes the data on, or
it goes on behind a round. -/
theorem writeRounds_cases (hwrite : writeRounds direct b (rounds + 1) data count h = .ok r h') :
    (∃ e, h.failure? b = some e ∧ r = ⟨count, some e⟩ ∧ h' = h) ∨
    h.failure? b = none ∧ (r = ⟨count + data.length, none⟩ ∧ h.Passes (.buffered b) data h' ∧
        h.Sticks h' ∨
      ∃ h₁ size, writeRounds direct b rounds (data.drop size) (count + size) h₁ = .ok r h' ∧
        h.Round direct b data size h₁) := by
  rw [writeRounds, Act.get_bind] at hwrite
  cases hb : h.buffers[b]? with
  | none =>
    rw [hb] at hwrite
    cases hwrite
    refine .inr ⟨by simp [failure?, hb], .inl ⟨rfl, ⟨Keeps.refl _, fun i hi => ?_, fun _ _ _ _ => rfl⟩,
      Sticks.refl _⟩⟩
    simp [Writer.sink?, behind?, hb] at hi
  | some buf =>
    obtain ⟨sink, held, error⟩ := buf
    rw [hb] at hwrite
    cases error with
    | some e =>
      simp only [Option.isSome_some, if_true] at hwrite
      cases hwrite
      exact .inl ⟨e, by simp [failure?, hb], rfl, rfl⟩
    | none =>
      refine .inr ⟨by simp [failure?, hb], ?_⟩
      have hroom : held = [] → 0 < bufferSize - held.length := by
        rintro rfl; exact Nat.zero_lt_succ _
      simp only [Option.isSome_none, Bool.false_eq_true, if_false] at hwrite
      generalize bufferSize - held.length = room at hroom hwrite
      split at hwrite
      · cases hwrite
        exact .inl ⟨rfl, passes_put hb data, sticks_put hb rfl rfl Error.noHalt_none⟩
      · next hfits =>
        split at hwrite
        · next hshort =>
          obtain ⟨rfl, rfl⟩ : direct = true ∧ held = [] := by
            simpa only [Bool.and_eq_true, List.isEmpty_iff] using hshort
          obtain ⟨w, h₁, hsink, hrest⟩ := Act.bind_eq_ok.mp hwrite
          exact .inr ⟨_, w.count, hrest, (replies_of_writeSink hsink).round hb (by omega)⟩
        · have hnext : (flushBuffer b >>= fun _ => writeRounds direct b rounds (data.drop room)
              (count + room)) (h.put b ⟨sink, held ++ data.take room, none⟩) = .ok r h' := hwrite
          obtain ⟨e, h₁, hflush, hrest⟩ := Act.bind_eq_ok.mp hnext
          exact .inr ⟨h₁, room, hrest, round_of_flushBuffer hb hroom hfits hflush⟩

/-- A buffer that has kept an error is not changed any more. -/
theorem writeRounds_of_failure {e : Error} (hf : h.failure? b = some e)
    (hwrite : writeRounds direct b rounds data count h = .ok r h') :
    h' = h ∧ (rounds ≠ 0 → r.error = some e) := by
  cases rounds with
  | zero => cases hwrite; exact ⟨rfl, fun hne => absurd rfl hne⟩
  | succ rounds =>
    rcases writeRounds_cases hwrite with ⟨e', he', rfl, rfl⟩ | ⟨hnone, -⟩
    · rw [hf] at he'
      cases he'
      exact ⟨rfl, fun _ => rfl⟩
    · rw [hf] at hnone; cases hnone

/-- What a write through the buffer `b` that returned has done: it passed on a beginning of the data,
as long as the count says, unless the buffer has kept an error. -/
structure Fills (b : Nat) (data : Bytes) (count : Nat) (r : Wrote) (h h' : Host) : Prop where
  lags : h.Lags (.buffered b) data h'
  sticks : h.Sticks h'
  passes : h'.failure? b = none → r.error = none ∧ ∃ size ≤ data.length, r.count = count + size ∧
    h.Passes (.buffered b) (data.take size) h'
  fails : h.failure? b = none → h'.failure? b ≠ none → Writer.Failed h' (.buffered b)

/-- A buffer that is not changed. -/
theorem Fills.refl (hr : h.failure? b = none → r = ⟨count, none⟩) : h.Fills b data count r h := by
  refine ⟨(Passes.refl _ h).lags.widen List.nil_prefix, Sticks.refl h, fun hf => ?_,
    fun hf hne => absurd hf hne⟩
  rw [hr hf]
  exact ⟨rfl, 0, Nat.zero_le _, rfl, Passes.refl _ h⟩

theorem fills_of_writeRounds (hwrite : writeRounds direct b rounds data count h = .ok r h') :
    h.Fills b data count r h' := by
  induction rounds generalizing data count h with
  | zero => cases hwrite; exact Fills.refl fun _ => rfl
  | succ rounds ih =>
    rcases writeRounds_cases hwrite with
      ⟨e, he, rfl, rfl⟩ | ⟨hnone, ⟨rfl, hp, hs⟩ | ⟨h₁, size, hrest, hround⟩⟩
    · exact Fills.refl fun hnone => by rw [he] at hnone; cases hnone
    · refine ⟨hp.lags, hs, fun _ => ⟨rfl, data.length, Nat.le_refl _, rfl, ?_⟩, fun _ hne => ?_⟩
      · rwa [List.take_length]
      · rw [hp.keeps.failures] at hne
        exact absurd hnone hne
    · cases he : h₁.failure? b with
      | none =>
        obtain ⟨hp, -, -⟩ := hround.passes he
        have hfills := ih hrest
        have hlags := hp.lags_trans hfills.lags
        rw [List.take_append_drop] at hlags
        refine ⟨hlags, hround.sticks.trans hfills.sticks, fun hend => ?_,
          fun _ hne => hfills.fails he hne⟩
        obtain ⟨herror, size', hsize', hcount, hp'⟩ := hfills.passes hend
        have hsize := hround.bound
        rw [List.length_drop] at hsize'
        refine ⟨herror, size + size', by omega, by omega, ?_⟩
        rw [List.take_add]
        exact hp.trans hp'
      | some e =>
        obtain ⟨rfl, -⟩ := writeRounds_of_failure he hrest
        obtain ⟨hl, hfailed⟩ := hround.fails (by rw [he]; simp)
        refine ⟨hl, hround.sticks, fun hend => ?_, fun _ _ => hfailed⟩
        rw [he] at hend; cases hend

/-- With rounds enough all of the data is passed on, or the error of the buffer is returned. Text is
never given to the sink at once, so that every round takes some; of other data an honest sink
does. -/
theorem whole_of_writeRounds (hwrite : writeRounds direct b rounds data count h = .ok r h')
    (hdirect : direct = true → ∀ i, h.behind? b = some i → h.Honest i)
    (hrounds : 2 * data.length + (if h.held b = [] then 0 else 1) < rounds) :
    (h'.failure? b = none → r.count = count + data.length) ∧
      (h'.failure? b ≠ none → r.error.isSome = true) := by
  induction rounds generalizing data count h with
  | zero => omega
  | succ rounds ih =>
    rcases writeRounds_cases hwrite with
      ⟨e, he, rfl, rfl⟩ | ⟨hnone, ⟨rfl, hp, hs⟩ | ⟨h₁, size, hrest, hround⟩⟩
    · exact ⟨(fun hend => by rw [he] at hend; cases hend), fun _ => rfl⟩
    · refine ⟨fun _ => rfl, fun hne => ?_⟩
      rw [hp.keeps.failures] at hne
      exact absurd hnone hne
    · cases he : h₁.failure? b with
      | none =>
        obtain ⟨hp, hempty, hpos⟩ := hround.passes he
        have hsize := hround.bound
        have hsmall : 2 * (data.drop size).length + (if h₁.held b = [] then 0 else 1) < rounds := by
          rw [if_pos hempty, List.length_drop]
          split at hrounds
          · next hnil => have := hpos hnil hdirect; omega
          · omega
        have hdirect' : direct = true → ∀ i, h₁.behind? b = some i → h₁.Honest i := by
          intro hd i hi
          rw [hround.sticks.sinks] at hi
          exact (hround.sticks.honest i).mpr (hdirect hd i hi)
        obtain ⟨hcount, herror⟩ := ih hrest hdirect' hsmall
        rw [List.length_drop] at hcount
        exact ⟨fun hend => by have := hcount hend; omega, herror⟩
      | some e =>
        -- the next round finds the error in the buffer
        obtain ⟨rfl, herror⟩ := writeRounds_of_failure he hrest
        refine ⟨fun hend => ?_, fun _ => ?_⟩
        · rw [he] at hend; cases hend
        · have := hround.nonempty
          rw [herror (by omega)]; rfl

end

end Host

/-! ## Writers -/

namespace Writer

open Host

/-- The sink that a writer calls at once, with no buffer in front. -/
def bare? : Writer → Option Nat
  | direct i | flushing i => some i
  | discard | buffered _ => none

variable {h h' : Host} {w : Writer} {data text : Bytes} {r : Wrote} {e : Option Error}

theorem passes_discard (h : Host) (text : Bytes) : h.Passes .discard text h :=
  ⟨Keeps.refl h, (fun _ hi _ => nomatch hi), fun _ _ _ _ => rfl⟩

/-- A sink that was called at once and took everything. -/
theorem passes_of_replies {i : Nat} (hreply : h.Replies i data r h') (hw : w.sink? h = some i)
    (hheld : w.held h = []) (hfull : data.length ≤ r.count) : h.Passes w data h' := by
  have hreceived := hreply.received
  rw [List.take_of_length_le hfull] at hreceived
  exact hreply.calls.passes hw hreceived hheld

theorem passes_of_write (hwrite : w.write data h = .ok r h') : h.Sticks h' ∧
    (r.error = none → data.length ≤ r.count → w.failure? h' = none → h.Passes w data h') := by
  cases w with
  | discard => cases hwrite; exact ⟨Sticks.refl h, fun _ _ _ => passes_discard h data⟩
  | direct i | flushing i =>
    have hreply := replies_of_writeSink hwrite
    exact ⟨hreply.calls.sticks, fun _ hfull _ => passes_of_replies hreply rfl rfl hfull⟩
  | buffered b =>
    have hfills := fills_of_writeRounds hwrite
    refine ⟨hfills.sticks, fun _ hfull hend => ?_⟩
    obtain ⟨-, size, -, hcount, hp⟩ := hfills.passes hend
    rwa [List.take_of_length_le (by omega)] at hp

/-- For text the count is not needed, unless a sink that was called at once came up short. -/
theorem passes_of_writeText (hwrite : w.writeText text h = .ok r h') : h.Sticks h' ∧
    (r.error = none → w.failure? h' = none → (∀ i, w.bare? = some i → h'.hasFailed i = false) →
      h.Passes w text h') := by
  cases w with
  | discard => cases hwrite; exact ⟨Sticks.refl h, fun _ _ _ => passes_discard h text⟩
  | direct i | flushing i =>
    have hreply := replies_of_writeSink hwrite
    refine ⟨hreply.calls.sticks, fun _ _ hbare => passes_of_replies hreply rfl rfl ?_⟩
    refine Nat.le_of_not_lt fun hlt => ?_
    have hfailed := (hreply.fails (.inr hlt)).1
    rw [hbare i rfl] at hfailed
    cases hfailed
  | buffered b =>
    have hfills := fills_of_writeRounds hwrite
    refine ⟨hfills.sticks, fun _ hend _ => ?_⟩
    obtain ⟨hwhole, -⟩ := whole_of_writeRounds hwrite (fun hd => by cases hd) (by split <;> omega)
    obtain ⟨-, size, -, hcount, hp⟩ := hfills.passes hend
    have := hwhole hend
    rwa [List.take_of_length_le (by omega)] at hp

theorem flushes_of_flush (hflush : w.flush h = .ok e h') : h.Flushes w e h' := by
  cases w with
  | discard | direct i =>
    cases hflush
    exact ⟨(Passes.refl _ h).lags, Sticks.refl h,
      (fun _ => ⟨Passes.refl _ h, rfl, fun _ hv => hv⟩), (fun _ => rfl), fun he => he⟩
  | flushing i =>
    obtain ⟨hc, hreceived, hnoHalt⟩ := calls_of_flushSink hflush
    have hp : h.Passes (.flushing i) [] h' :=
      hc.passes rfl (fun _ => by rw [hreceived, List.append_nil]) rfl
    refine ⟨hp.lags, hc.sticks, fun _ => ⟨hp, rfl, fun v hv => ?_⟩, fun _ => rfl, fun _ => hnoHalt⟩
    rw [hc.held]; exact hv
  | buffered b => exact (flushes_of_flushBuffer hflush).1

end Writer

/-! ## Outlets -/

namespace Outlet

open Host

/-- A flush of the outlet passed on all that waited. -/
structure Empties (ws : Outlet) (h h' : Host) : Prop where
  spreads : Spreads ws [] h h'
  held : ∀ w ∈ ws, w.held h' = []
  others : ∀ v : Writer, v.held h = [] → v.held h' = []

/-- No buffer has kept an error, and if there is only one writer and it has no buffer, no write to
its sink has failed. -/
structure Sound (h : Host) (ws : Outlet) : Prop where
  failures : ∀ w ∈ ws, w.failure? h = none
  lone : ∀ w i, ws = [w] → w.bare? = some i → h.hasFailed i = false

variable {h h' h'' : Host} {w : Writer} {ws : Outlet} {data text : Bytes} {r : Wrote}
  {e : Option Error}

theorem Sound.before (s : h.Sticks h') (hs : Sound h' ws) : Sound h ws :=
  ⟨fun w hw => s.writer_failure? (hs.failures w hw),
    fun w i hws hw => s.hasFailed_eq_false (hs.lone w i hws hw)⟩

theorem Empties.nil (h : Host) : Empties [] h h :=
  ⟨Spreads.nil h, (fun _ hw => nomatch hw), fun _ hv => hv⟩

theorem Empties.cons (hw : h.Empties w h') (hws : Empties ws h' h'') : Empties (w :: ws) h h'' := by
  refine ⟨Spreads.cons hw.passes hws.spreads, ?_, fun v hv => hws.others v (hw.others v hv)⟩
  intro v hv
  rcases List.mem_cons.mp hv with rfl | hv
  · exact hws.others v hw.held
  · exact hws.held v hv

/-- A fan-out tells every write that comes up short. -/
theorem spreads_of_fanWrite (hwrite : fanWrite Writer.write ws data h = .ok r h') :
    h.Sticks h' ∧
      (r.error = none → (∀ w ∈ ws, w.failure? h' = none) → Spreads ws data h h') := by
  induction ws generalizing h with
  | nil => cases hwrite; exact ⟨Sticks.refl _, fun _ _ => Spreads.nil _⟩
  | cons w rest ih =>
    obtain ⟨r₁, h₁, hfirst, hnext⟩ := Act.bind_eq_ok.mp hwrite
    obtain ⟨hs, hp⟩ := Writer.passes_of_write hfirst
    split at hnext
    · next hsome =>
      cases hnext
      exact ⟨hs, fun hnone => by rw [hnone] at hsome; cases hsome⟩
    · next hnone =>
      split at hnext
      · cases hnext
        exact ⟨hs, fun hnone => nomatch hnone⟩
      · next hfull =>
        obtain ⟨hs', hrest⟩ := ih hnext
        refine ⟨hs.trans hs', fun herror hend => ?_⟩
        have hw := hp (by simpa using hnone) (Nat.le_of_not_lt hfull)
          (hs'.writer_failure? (hend w List.mem_cons_self))
        exact Spreads.cons hw (hrest herror fun v hv => hend v (List.mem_cons_of_mem _ hv))

theorem spreads_of_writeText (hwrite : writeText ws text h = .ok r h') :
    h.Sticks h' ∧ (r.error = none → Sound h' ws → Spreads ws text h h') := by
  match ws with
  | [] => cases hwrite
  | [w] =>
    obtain ⟨hs, hp⟩ := Writer.passes_of_writeText hwrite
    refine ⟨hs, fun herror hsound => Spreads.single ?_⟩
    exact hp herror (hsound.failures w List.mem_cons_self) fun i hi => hsound.lone w i rfl hi
  | _ :: _ :: _ =>
    obtain ⟨hs, hspreads⟩ := spreads_of_fanWrite hwrite
    exact ⟨hs, fun herror hsound => hspreads herror hsound.failures⟩

/-- No flush of the outlet returns a halt, unless a buffer has kept one. -/
theorem noHalt_of_attemptAll (hflush : attemptAll Writer.flush ws h = .ok e h')
    (hkept : ∀ w ∈ ws, Error.NoHalt (w.failure? h)) : Error.NoHalt e := by
  induction ws generalizing h e with
  | nil => cases hflush; exact Error.noHalt_none
  | cons w rest ih =>
    obtain ⟨first, h₁, hfirst, hnext⟩ := Act.bind_eq_ok.mp hflush
    obtain ⟨later, h₂, hrest, hreturn⟩ := Act.bind_eq_ok.mp hnext
    cases hreturn
    have hw := Writer.flushes_of_flush hfirst
    refine (hw.noHalt (hkept w List.mem_cons_self)).orElse (ih hrest fun v hv => ?_)
    exact hw.sticks.writer_noHalt (hkept v (List.mem_cons_of_mem _ hv))

theorem noHalt_of_flush (hflush : flush ws h = .ok e h')
    (hkept : ∀ w ∈ ws, Error.NoHalt (w.failure? h)) : Error.NoHalt e := by
  match ws with
  | [] => cases hflush
  | [w] => exact (Writer.flushes_of_flush hflush).noHalt (hkept w List.mem_cons_self)
  | _ :: _ :: _ => exact noHalt_of_attemptAll hflush hkept

theorem empties_of_attemptAll (hflush : attemptAll Writer.flush ws h = .ok e h') :
    h.Sticks h' ∧ (e = none → (∀ w ∈ ws, w.failure? h' = none) ∧ Empties ws h h') := by
  induction ws generalizing h e with
  | nil =>
    cases hflush
    exact ⟨Sticks.refl _, fun _ => ⟨(fun _ hw => nomatch hw), Empties.nil _⟩⟩
  | cons w rest ih =>
    obtain ⟨first, h₁, hfirst, hnext⟩ := Act.bind_eq_ok.mp hflush
    obtain ⟨later, h₂, hrest, hreturn⟩ := Act.bind_eq_ok.mp hnext
    cases hreturn
    have hw := Writer.flushes_of_flush hfirst
    obtain ⟨hs, hempties⟩ := ih hrest
    refine ⟨hw.sticks.trans hs, fun hnone => ?_⟩
    obtain ⟨rfl, rfl⟩ : first = none ∧ later = none := by simpa using hnone
    obtain ⟨hfailures, hempty⟩ := hempties rfl
    refine ⟨fun v hv => ?_, Empties.cons (hw.empties rfl) hempty⟩
    rcases List.mem_cons.mp hv with rfl | hv
    · rw [hempty.spreads.keeps.writer_failure?]; exact hw.failure rfl
    · exact hfailures v hv

/-- A flush without an error tells that no buffer has kept one. -/
theorem empties_of_flush (hflush : flush ws h = .ok e h') :
    h.Sticks h' ∧ (e = none → (∀ w ∈ ws, w.failure? h' = none) ∧ Empties ws h h') := by
  match ws with
  | [] => cases hflush
  | [w] =>
    have hw := Writer.flushes_of_flush hflush
    refine ⟨hw.sticks, fun hnone => ⟨fun v hv => ?_, Empties.cons (hw.empties hnone) (Empties.nil h')⟩⟩
    rw [List.mem_singleton.mp hv]
    exact hw.failure hnone
  | _ :: _ :: _ => exact empties_of_attemptAll hflush

end Outlet

end WordStack
