import WordStack.Proofs.Host.Acceptance

/-!
# Output that may fail

A sink is honest if it never crashes and returns an error whenever it takes less than it is given.
A writer to such a sink passes a text on, or it returns an error and has passed on only a beginning
of what was written. A flush loses nothing either way: what the sink does not take waits on.

* `Host.Takes`: a write passed all of a text on, or the sink has failed.
* `Writer.takes_write`, `Writer.empties_flush`: what a writer to an honest sink does.
* `Outlet.takes_writeText`, `Outlet.empties_flush`: what an outlet of such writers does.
-/
namespace WordStack

/-- A sink that is filled up to a limit and fails there says so. -/
theorem SinkLimits.reply_of_failPast (limit : Int) (text : Bytes) (past : SinkPast) (data : Bytes) :
    ∃ count error, SinkLimits.reply { failPast := some (limit, text) } past data =
      .took count error ∧ (count < data.length → error ≠ none) := by
  simp only [reply, reply.shortened, Option.any_none, Bool.false_eq_true, if_false]
  split
  · exact ⟨_, _, rfl, fun _ => by simp⟩
  · exact ⟨_, _, rfl, fun hlt => absurd hlt (Nat.lt_irrefl _)⟩

namespace Writer

/-- The sink behind the writer is honest, and can be flushed if it is flushed itself. -/
structure Honest (h : Host) (w : Writer) : Prop where
  sinks : ∀ i, w.sink? h = some i → h.Honest i
  flushes : ∀ i p, w = .flushing i → h.policy? i = some p → ∀ past, p.flush past = .done none

end Writer

namespace Host

/-- What a write of the writer `w` comes to: it passed the text on and returns the count, or it
returns an error because the sink has failed. -/
def Takes (w : Writer) (text : Bytes) (count : Nat) (r : Wrote) (h h' : Host) : Prop :=
  r = ⟨count, none⟩ ∧ h.Passes w text h' ∨
    r.error.isSome = true ∧ h.Lags w text h' ∧ w.Failed h'

variable {h h' : Host} {w : Writer}

theorem Resembles.sinks_honest (r : h.Resembles h')
    (hw : ∀ i, w.sink? h = some i → h.Honest i) : ∀ i, w.sink? h' = some i → h'.Honest i := by
  intro i hi
  rw [r.sink?] at hi
  exact (r.honest i).mpr (hw i hi)

theorem Resembles.writer_honest (r : h.Resembles h') (hw : w.Honest h) : w.Honest h' :=
  ⟨r.sinks_honest hw.sinks, by rw [r.policies]; exact hw.flushes⟩

/-! ## Buffers -/

section
variable {b : Nat} (hcalm : ∀ i, h.behind? b = some i → h.Calm i)

include hcalm

theorem exists_flushBuffer : ∃ e h', flushBuffer b h = .ok e h' := by
  unfold flushBuffer
  rw [Act.get_bind]
  cases hb : h.buffers[b]? with
  | none => exact ⟨none, h, rfl⟩
  | some buf =>
    obtain ⟨sink, held, error⟩ := buf
    cases error with
    | some error => exact ⟨some error, h, rfl⟩
    | none =>
      obtain ⟨r, h₁, hwrite⟩ := exists_writeSink (hcalm sink (by simp [behind?, hb])) held
      dsimp only
      split
      · exact ⟨none, h, rfl⟩
      · rw [Act.bind_ok hwrite]
        exact ⟨_, _, rfl⟩

theorem exists_writeRounds (direct : Bool) (rounds : Nat) (data : Bytes) (count : Nat) :
    ∃ r h', writeRounds direct b rounds data count h = .ok r h' := by
  induction rounds generalizing data count h with
  | zero => exact ⟨_, h, rfl⟩
  | succ rounds ih =>
    have hcalm' : ∀ {h₁ : Host}, h.Resembles h₁ → ∀ i, h₁.behind? b = some i → h₁.Calm i := by
      intro h₁ r i hi
      rw [Calm, r.policies]
      exact hcalm i (by rw [← r.sinks]; exact hi)
    rw [writeRounds, Act.get_bind]
    cases hb : h.buffers[b]? with
    | none => exact ⟨_, h, rfl⟩
    | some buf =>
      dsimp only
      generalize bufferSize - buf.held.length = room
      split
      · exact ⟨_, h, rfl⟩
      split
      · exact ⟨_, _, rfl⟩
      split
      · obtain ⟨w, h₁, hwrite⟩ := exists_writeSink (hcalm buf.sink (by simp [behind?, hb])) data
        have hreply := replies_of_writeSink hwrite
        have hb₁ : h₁.buffers[b]? = some buf := by rw [hreply.calls.buffers, hb]
        have hput : h₁.Resembles (h₁.put b { buf with error := w.error }) := resembles_put hb₁ rfl
        obtain ⟨r, h₂, hrest⟩ := ih (hcalm' (hreply.calls.keeps.toResembles.trans hput))
          (data.drop w.count) (count + w.count)
        exact ⟨r, h₂, (Act.bind_ok hwrite).trans hrest⟩
      · have hput : h.Resembles (h.put b { buf with held := buf.held ++ data.take room }) :=
          resembles_put hb rfl
        obtain ⟨e, h₁, hflush⟩ := exists_flushBuffer (hcalm' hput)
        have hsticks := (flushes_of_flushBuffer hflush).1.sticks
        obtain ⟨r, h₂, hrest⟩ := ih (hcalm' (hput.trans hsticks.toResembles)) (data.drop room)
          (count + room)
        exact ⟨r, h₂, (Act.bind_ok hflush).trans hrest⟩

end

/-- A flush gives the sink all that waits, or keeps what the sink did not take, and the error. -/
theorem flushBuffer_of_honest {b : Nat} (hw : Writer.Honest h (.buffered b)) :
    ∃ e h', flushBuffer b h = .ok e h' ∧ h.Lags (.buffered b) [] h' ∧ h.Remembers h' ∧
      (h.failure? b = none → e = none ∧ h.Empties (.buffered b) h' ∨
        e.isSome = true ∧ Writer.Failed h' (.buffered b)) := by
  obtain ⟨e, h', hflush⟩ := exists_flushBuffer fun i hi => (hw.sinks i hi).calm
  obtain ⟨hflushes, -, hfails⟩ := flushes_of_flushBuffer hflush
  refine ⟨e, h', hflush, hflushes.lags, hflushes.sticks.remembers, fun hf => ?_⟩
  cases e with
  | none => exact .inl ⟨rfl, hflushes.empties rfl⟩
  | some error => exact .inr ⟨rfl, hfails hf rfl⟩

/-- A write through a buffer. -/
theorem writeBuffer_of_honest (direct : Bool) {b : Nat} (data : Bytes)
    (hw : ∀ i, h.behind? b = some i → h.Honest i) (hf : h.failure? b = none) :
    ∃ r h', writeBuffer direct b data h = .ok r h' ∧
      h.Takes (.buffered b) data data.length r h' := by
  obtain ⟨r, h', hwrite⟩ := exists_writeRounds (fun i hi => (hw i hi).calm) direct
    (2 * data.length + 2) data 0
  have hfills := fills_of_writeRounds hwrite
  obtain ⟨hcount, herror⟩ :=
    whole_of_writeRounds hwrite (fun _ => hw) (by split <;> omega)
  refine ⟨r, h', hwrite, ?_⟩
  cases hend : h'.failure? b with
  | none =>
    obtain ⟨hnone, size, -, hsize, hp⟩ := hfills.passes hend
    have hall := hcount hend
    rw [Nat.zero_add] at hall hsize
    rw [← hsize, hall, List.take_length] at hp
    obtain ⟨count, error⟩ := r
    obtain rfl : error = none := hnone
    obtain rfl : count = data.length := hall
    exact .inl ⟨rfl, hp⟩
  | some e =>
    have hne : h'.failure? b ≠ none := by rw [hend]; simp
    exact .inr ⟨herror hne, hfills.lags, hfills.fails hf hne⟩

/-- A write that goes straight to the sink. -/
theorem Replies.takes {i : Nat} {data : Bytes} {r : Wrote} (hreply : h.Replies i data r h')
    (hi : h.Honest i) (hw : w.sink? h = some i) (hheld : w.held h = []) :
    h.Takes w data data.length r h' := by
  obtain ⟨taken, error⟩ := r
  cases error with
  | none =>
    obtain rfl : taken = data.length := hreply.full hi rfl
    have hr := hreply.received
    rw [List.take_length] at hr
    exact .inl ⟨rfl, hreply.calls.passes hw hr hheld⟩
  | some error =>
    have hp : h.Passes w (data.take taken) h' := hreply.calls.passes hw hreply.received hheld
    obtain ⟨hfailed, haccepts⟩ := hreply.fails (.inl rfl)
    refine .inr ⟨rfl, hp.lags.widen (List.take_prefix taken data), i, ?_, hfailed, ?_⟩
    · rw [hp.keeps.sink?, hw]
    · rw [hp.keeps.accepts]; exact haccepts

end Host

/-! ## Writers -/

namespace Writer

open Host

variable {h : Host} {w : Writer}

section
variable (hw : ∀ i, w.sink? h = some i → h.Honest i) (hf : w.failure? h = none)

include hw hf

theorem takes_write (data : Bytes) :
    ∃ r h', w.write data h = .ok r h' ∧ h.Takes w data data.length r h' := by
  cases w with
  | discard =>
    exact ⟨_, h, rfl, .inl ⟨rfl, Keeps.refl h, (fun _ hi _ => nomatch hi), fun _ _ _ _ => rfl⟩⟩
  | direct i | flushing i =>
    obtain ⟨r, h', hwrite, hreply⟩ := writeSink_of_calm (hw i rfl).calm data
    exact ⟨r, h', hwrite, hreply.takes (hw i rfl) rfl rfl⟩
  | buffered b => exact writeBuffer_of_honest true data hw hf

theorem takes_writeText (text : Bytes) :
    ∃ r h', w.writeText text h = .ok r h' ∧ h.Takes w text text.length r h' := by
  cases w with
  | buffered b => exact writeBuffer_of_honest false text hw hf
  | _ => exact takes_write hw hf text

end

/-- A flush loses nothing; it passes on all that waits unless the sink has failed. -/
theorem empties_flush (hw : w.Honest h) : ∃ e h', w.flush h = .ok e h' ∧ h.Lags w [] h' ∧ h.Remembers h' ∧
    (w.failure? h = none → e = none ∧ h.Empties w h' ∨ e.isSome = true ∧ w.Failed h') := by
  cases w with
  | discard | direct i =>
    refine ⟨none, h, rfl, (Passes.refl _ h).lags, Remembers.refl h, fun _ => .inl ⟨rfl, ?_⟩⟩
    exact ⟨Passes.refl _ h, rfl, fun _ hv => hv⟩
  | flushing i =>
    obtain ⟨h', hflush, hc, hr⟩ := flushSink_of_done (hw.flushes i · rfl)
    have hp : h.Passes (.flushing i) [] h' :=
      hc.passes rfl (fun _ => by rw [hr, List.append_nil]) rfl
    refine ⟨none, h', hflush, hp.lags, hc.remembers, fun _ => .inl ⟨rfl, hp, rfl, ?_⟩⟩
    intro v hv
    rw [hc.held]; exact hv
  | buffered b =>
    exact flushBuffer_of_honest hw

end Writer

/-! ## Outlets -/

namespace Outlet

open Host

/-- The writers of an outlet passed on a beginning of a text each, and no writer to another sink
noticed. -/
structure Trails (ws : Outlet) (text : Bytes) (h h' : Host) : Prop where
  resembles : h.Resembles h'
  given : ∀ w i, Feeds h ws w i →
    h'.received i ++ w.held h' <+: h.received i ++ w.held h ++ text
  others : ∀ (v : Writer) i, v.sink? h = some i → some i ∉ ws.map (·.sink? h) →
    h'.received i ++ v.held h' = h.received i ++ v.held h

/-- The sink of a writer has failed. -/
def Failed (h : Host) (ws : Outlet) : Prop := ∃ w ∈ ws, w.Failed h

variable {h h' h'' : Host} {w : Writer} {ws : Outlet} {text : Bytes}

theorem Trails.refl (ws : Outlet) (text : Bytes) (h : Host) : Trails ws text h h :=
  ⟨Resembles.refl h, fun _ _ _ => List.prefix_append _ text, fun _ _ _ _ => rfl⟩

theorem Trails.cons (hl : h.Lags w text h') (ht : Trails ws text h' h'') :
    Trails (w :: ws) text h h'' := by
  have hr := hl.resembles
  refine ⟨hr.trans ht.resembles, ?_, ?_⟩
  · intro v i hf
    rcases hf.cons_cases with ⟨rfl, hsink, hnone⟩ | ⟨hw, hf'⟩
    · rw [ht.others v i (by rw [hr.sink?, hsink]) (by rw [hr.map_sink?]; exact hnone)]
      exact hl.given i hsink hf.records
    · have hgiven := ht.given v i (hf'.resembles hr)
      rwa [hl.others v i hf'.sink hw] at hgiven
  · intro v i hv hi
    rw [List.map_cons, List.mem_cons, not_or] at hi
    rw [ht.others v i (by rw [hr.sink?, hv]) (by rw [hr.map_sink?]; exact hi.2),
      hl.others v i hv (Ne.symm hi.1)]

/-- A beginning of a text, and a flush. -/
theorem Trails.then (ht : Trails ws text h h') (hf : Trails ws [] h' h'') :
    Trails ws text h h'' := by
  have hr := ht.resembles
  refine ⟨hr.trans hf.resembles, ?_, ?_⟩
  · intro w i hw
    have hgiven := hf.given w i (hw.resembles hr)
    rw [List.append_nil] at hgiven
    exact hgiven.trans (ht.given w i hw)
  · intro v i hv hi
    rw [hf.others v i (by rw [hr.sink?, hv]) (by rw [hr.map_sink?]; exact hi), ht.others v i hv hi]

/-- Every writer took the text, or one of them returned an error because its sink has failed. -/
def Takes (ws : Outlet) (text : Bytes) (r : Wrote) (h h' : Host) : Prop :=
  r = ⟨text.length, none⟩ ∧ Spreads ws text h h' ∨
    r.error.isSome = true ∧ Trails ws text h h' ∧ Failed h' ws

theorem Takes.single {r : Wrote} (ht : h.Takes w text text.length r h') :
    Takes [w] text r h h' := by
  rcases ht with ⟨rfl, hp⟩ | ⟨he, hl, hfailed⟩
  · exact .inl ⟨rfl, Spreads.single hp⟩
  · exact .inr ⟨he, Trails.cons hl (Trails.refl [] text h'), w, List.mem_cons_self, hfailed⟩

theorem takes_fanWrite (hws : ∀ w ∈ ws, ∀ i, w.sink? h = some i → h.Honest i)
    (hf : ∀ w ∈ ws, w.failure? h = none) (data : Bytes) :
    ∃ r h', fanWrite Writer.write ws data h = .ok r h' ∧ Takes ws data r h h' := by
  induction ws generalizing h with
  | nil => exact ⟨_, h, rfl, .inl ⟨rfl, Spreads.nil h⟩⟩
  | cons w rest ih =>
    obtain ⟨r, h₁, hwrite, htakes⟩ :=
      Writer.takes_write (hws w List.mem_cons_self) (hf w List.mem_cons_self) data
    rw [fanWrite, Act.bind_ok hwrite]
    rcases htakes with ⟨rfl, hp⟩ | ⟨he, hl, hfailed⟩
    · obtain ⟨r, h₂, hrest, htakes⟩ := ih
        (fun v hv => hp.keeps.sinks_honest (hws v (List.mem_cons_of_mem _ hv)))
        (fun v hv => by rw [hp.keeps.writer_failure?]; exact hf v (List.mem_cons_of_mem _ hv))
      refine ⟨r, h₂, by simpa using hrest, ?_⟩
      rcases htakes with ⟨he, hs⟩ | ⟨he, ht, v, hv, hfailed⟩
      · exact .inl ⟨he, Spreads.cons hp hs⟩
      · exact .inr ⟨he, Trails.cons hp.lags ht, v, List.mem_cons_of_mem _ hv, hfailed⟩
    · refine ⟨r, h₁, by simp [he], .inr ⟨he, ?_, w, List.mem_cons_self, hfailed⟩⟩
      exact Trails.cons hl (Trails.refl rest data h₁)

/-- The outlet takes all of a text, unless a sink fails. -/
theorem takes_writeText (hne : ws ≠ []) (hws : ∀ w ∈ ws, ∀ i, w.sink? h = some i → h.Honest i)
    (hf : ∀ w ∈ ws, w.failure? h = none) (text : Bytes) :
    ∃ r h', writeText ws text h = .ok r h' ∧ Takes ws text r h h' := by
  match ws with
  | [] => exact absurd rfl hne
  | [w] =>
    obtain ⟨r, h', hwrite, htakes⟩ :=
      Writer.takes_writeText (hws w List.mem_cons_self) (hf w List.mem_cons_self) text
    exact ⟨r, h', hwrite, Takes.single htakes⟩
  | _ :: _ :: _ => exact takes_fanWrite hws hf text

theorem empties_attemptAll (hws : ∀ w ∈ ws, w.Honest h) :
    ∃ e h', attemptAll Writer.flush ws h = .ok e h' ∧ Trails ws [] h h' ∧ h.Remembers h' ∧
      ((∀ w ∈ ws, w.failure? h = none) →
        e = none ∧ Empties ws h h' ∨ e.isSome = true ∧ Failed h' ws) := by
  induction ws generalizing h with
  | nil =>
    exact ⟨none, h, rfl, Trails.refl [] [] h, Remembers.refl h, fun _ => .inl ⟨rfl, Empties.nil h⟩⟩
  | cons w rest ih =>
    obtain ⟨e₁, h₁, hflush, hl, hm, hend⟩ := Writer.empties_flush (hws w List.mem_cons_self)
    obtain ⟨e₂, h₂, hrest, ht, hm', hend'⟩ := ih fun v hv =>
      hl.resembles.writer_honest (hws v (List.mem_cons_of_mem _ hv))
    refine ⟨e₁ <|> e₂, h₂, ?_, Trails.cons hl ht, hm.trans hm', fun hf => ?_⟩
    · rw [attemptAll, Act.bind_ok hflush, Act.bind_ok hrest]; rfl
    · rcases hend (hf w List.mem_cons_self) with ⟨rfl, hempties⟩ | ⟨he, hfailed⟩
      · have hf' : ∀ v ∈ rest, v.failure? h₁ = none := fun v hv => by
          rw [hempties.passes.keeps.writer_failure?]; exact hf v (List.mem_cons_of_mem _ hv)
        rcases hend' hf' with ⟨rfl, hrestEmpties⟩ | ⟨he, v, hv, hfailed⟩
        · exact .inl ⟨rfl, Empties.cons hempties hrestEmpties⟩
        · exact .inr ⟨he, v, List.mem_cons_of_mem _ hv, hfailed⟩
      · obtain ⟨error, rfl⟩ := Option.isSome_iff_exists.mp he
        exact .inr ⟨rfl, w, List.mem_cons_self, ht.resembles.failed hm' hfailed⟩

/-- A flush of the outlet loses nothing; it passes on all that waits unless a sink has failed. -/
theorem empties_flush (hne : ws ≠ []) (hws : ∀ w ∈ ws, w.Honest h) :
    ∃ e h', flush ws h = .ok e h' ∧ Trails ws [] h h' ∧ h.Remembers h' ∧
      ((∀ w ∈ ws, w.failure? h = none) →
        e = none ∧ Empties ws h h' ∨ e.isSome = true ∧ Failed h' ws) := by
  match ws with
  | [] => exact absurd rfl hne
  | [w] =>
    obtain ⟨e, h', hflush, hl, hm, hend⟩ := Writer.empties_flush (hws w List.mem_cons_self)
    refine ⟨e, h', hflush, Trails.cons hl (Trails.refl [] [] h'), hm, fun hf => ?_⟩
    rcases hend (hf w List.mem_cons_self) with ⟨he, hempties⟩ | ⟨he, hfailed⟩
    · exact .inl ⟨he, Empties.cons hempties (Empties.nil h')⟩
    · exact .inr ⟨he, w, List.mem_cons_self, hfailed⟩
  | _ :: _ :: _ => exact empties_attemptAll hws

end Outlet

end WordStack
