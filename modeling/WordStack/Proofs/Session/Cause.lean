import WordStack.Proofs.Session.Rehearsal

/-!
# A halt keeps its cause

A halt flushes the outlet and logs a line before it crashes with its reason. The flush may fail or
crash, and so may the line: the run returns the reason all the same. A run that comes to its end
returns what its last flush says.

* `Outlet.Flushes`: what a flush of the writers comes to, one after the other.
* `run_keeps_cause`: a run whose writes succeed returns the error that it returns on an output that
  never fails.
* `Session.Lasts`: sinks that take everything, and a recorder that does not crash too soon.
  `Session.rehearse_of_lasts`: this is enough.
-/
namespace WordStack

open Act (stateOf)

/-! ## Flushes -/

theorem Host.Resembles.calm {h h' : Host} (r : h.Resembles h') {i : Nat} (hi : h.Calm i) :
    h'.Calm i := by
  unfold Host.Calm
  rw [r.policies]
  exact hi

theorem Writer.flush_ne_exit {h : Host} (w : Writer) (hcalm : ∀ i, w.sink? h = some i → h.Calm i)
    (h' : Host) : w.flush h ≠ .error .exit h' := by
  cases w with
  | discard | direct i => exact fun he => nomatch he
  | buffered b =>
    obtain ⟨e, h₁, hflush⟩ := Host.exists_flushBuffer hcalm
    show Host.flushBuffer b h ≠ _
    rw [hflush]
    exact fun he => nomatch he
  | flushing i =>
    show Host.flushSink i h ≠ _
    unfold Host.flushSink
    split
    · exact fun he => nomatch he
    · dsimp only
      split
      · exact fun he => nomatch he
      · exact fun he => nomatch he

namespace Outlet

variable {ws : Outlet} {h : Host}

/-- What a flush of the writers, one after the other, comes to: their replies, and the value of a
crash, which leaves the writers behind it as they are. -/
inductive Flushes : Outlet → Host → List (Option Error) → Option CrashValue → Host → Prop
  | over (h : Host) : Flushes [] h [] none h
  | reply {w : Writer} {rest : Outlet} {h h' h'' : Host} {e : Option Error}
      {es : List (Option Error)} {crash : Option CrashValue} (hw : w.flush h = .ok e h')
      (hrest : Flushes rest h' es crash h'') : Flushes (w :: rest) h (e :: es) crash h''
  | crash {w : Writer} {rest : Outlet} {h h' : Host} {value : CrashValue}
      (hw : w.flush h = .error (.crash value) h') : Flushes (w :: rest) h [] (some value) h'

/-- The first error of the replies, or the error of the crash. -/
def verdict (es : List (Option Error)) : Option CrashValue → Option Error
  | none => es.findSome? id
  | some value => some ((Abort.crash value).toError Session.name)

theorem flush_eq_attemptAll (hne : ws ≠ []) (h : Host) :
    flush ws h = attemptAll Writer.flush ws h := by
  match ws with
  | [w] =>
    show w.flush h = (w.flush >>= fun first => attemptAll Writer.flush [] >>= fun later =>
      pure (first <|> later)) h
    cases hw : w.flush h with
    | ok e h' => rw [Act.bind_ok hw]; cases e <;> rfl
    | error a h' => rw [Act.bind_error hw]
  | _ :: _ :: _ => rfl

theorem flushes_of_attemptAll {error : Option Error} {h' : Host}
    (hflush : attemptAll Writer.flush ws h = .ok error h') :
    ∃ es, Flushes ws h es none h' ∧ error = es.findSome? id := by
  induction ws generalizing h error with
  | nil => cases hflush; exact ⟨[], .over _, rfl⟩
  | cons w rest ih =>
    obtain ⟨first, h₁, hw, hnext⟩ := Act.bind_eq_ok.mp hflush
    obtain ⟨later, h₂, hrest, hreturn⟩ := Act.bind_eq_ok.mp hnext
    cases hreturn
    obtain ⟨es, hflushes, rfl⟩ := ih hrest
    refine ⟨first :: es, .reply hw hflushes, ?_⟩
    cases first <;> rfl

theorem flushes_of_attemptAll_crash {value : CrashValue} {h' : Host}
    (hflush : attemptAll Writer.flush ws h = .error (.crash value) h') :
    ∃ es, Flushes ws h es (some value) h' := by
  induction ws generalizing h with
  | nil => cases hflush
  | cons w rest ih =>
    rcases Act.bind_eq_error.mp hflush with hw | ⟨first, h₁, hw, hnext⟩
    · exact ⟨[], .crash hw⟩
    rcases Act.bind_eq_error.mp hnext with hrest | ⟨later, h₂, -, hreturn⟩
    · obtain ⟨es, hflushes⟩ := ih hrest
      exact ⟨first :: es, .reply hw hflushes⟩
    · cases hreturn

/-- The error of a flush that ends in time or crashes. -/
theorem flushes_flush (hne : ws ≠ []) (hexit : ∀ h', flush ws h ≠ .error .exit h')
    (hkept : ∀ w ∈ ws, Error.NoHalt (w.failure? h)) : ∃ es crash,
      Flushes ws h es crash (stateOf (flush ws h)) ∧ Session.flushed ws h = verdict es crash := by
  have hsame := flush_eq_attemptAll hne h
  unfold Session.flushed
  cases hflush : flush ws h with
  | ok error h' =>
    have hnoHalt := noHalt_of_flush hflush hkept
    obtain ⟨es, hflushes, rfl⟩ := flushes_of_attemptAll (hsame.symm.trans hflush)
    exact ⟨es, none, hflushes, hnoHalt.withoutHalt⟩
  | error a h' =>
    cases a with
    | exit => exact absurd hflush (hexit h')
    | crash value =>
      obtain ⟨es, hflushes⟩ := flushes_of_attemptAll_crash (hsame.symm.trans hflush)
      exact ⟨es, some value, hflushes, rfl⟩

/-- Flushes end nothing if the sinks behind buffers do not. -/
theorem flush_ne_exit (hcalm : ∀ w ∈ ws, ∀ i, w.sink? h = some i → h.Calm i) (h' : Host) :
    flush ws h ≠ .error .exit h' := by
  by_cases hne : ws = []
  · rw [hne]; exact fun he => nomatch he
  rw [flush_eq_attemptAll hne]
  clear hne
  induction ws generalizing h with
  | nil => exact fun he => nomatch he
  | cons w rest ih =>
    intro hflush
    rcases Act.bind_eq_error.mp hflush with hw | ⟨first, h₁, hw, hnext⟩
    · exact w.flush_ne_exit (hcalm w List.mem_cons_self) h' hw
    have hsticks := (Writer.flushes_of_flush hw).sticks
    rcases Act.bind_eq_error.mp hnext with hrest | ⟨later, h₂, -, hreturn⟩
    · refine ih (fun v hv i hi => ?_) hrest
      rw [hsticks.sink?] at hi
      exact hsticks.calm (hcalm v (List.mem_cons_of_mem _ hv) i hi)
    · cases hreturn

end Outlet

/-! ## Surroundings that last -/

/-- The logger calls a recorder, which does not crash at one of the next so many lines. -/
def Logger.Lasts (h : Host) (lines : Nat) : Logger → Prop
  | absent | journal _ => False
  | recorder r => ∀ x, h.recorders[r]? = some x → ∀ k, x.calls < k → k ≤ x.calls + lines →
    x.crash k = none
  | indented _ inner => inner.Lasts h lines

theorem Logger.Lasts.mono {h h' : Host} {l : Logger} {lines lines' : Nat} (hl : l.Lasts h lines)
    (hrecorders : h'.recorders = h.recorders) (hle : lines' ≤ lines) : l.Lasts h' lines' := by
  induction l with
  | absent | journal level => exact hl
  | recorder r =>
    intro x hx k hlow hhigh
    rw [hrecorders] at hx
    exact hl x hx k hlow (by omega)
  | indented text inner ih => exact ih hl

/-- A line that is sent in time does not crash, and leaves one line less. -/
theorem Logger.Lasts.send {h : Host} {l : Logger} {lines : Nat} (hl : l.Lasts h (lines + 1))
    (template : Bytes) (args : List Template.Arg) :
    ∃ h', l.send template args h = .ok () h' ∧ l.Lasts h' lines := by
  induction l generalizing template with
  | absent | journal level => exact hl.elim
  | indented text inner ih => exact ih hl (text ++ template)
  | recorder r =>
    show ∃ h', Host.record r _ h = .ok () h' ∧ _
    unfold Host.record
    cases hr : h.recorders[r]? with
    | none => exact ⟨_, rfl, Logger.Lasts.mono (l := .recorder r) hl rfl (Nat.le_succ lines)⟩
    | some x =>
      dsimp only
      rw [hl x hr (x.calls + 1) (by omega) (by omega)]
      refine ⟨_, rfl, fun y hy k hlow hhigh => ?_⟩
      obtain ⟨hlt, -⟩ := Array.getElem?_eq_some_iff.mp hr
      simp only [Host.tell, Array.getElem?_setIfInBounds, if_pos, hlt] at hy
      cases hy
      exact hl x hr k (by simp at hlow; omega) (by simp at hhigh; omega)

/-- A recorder may crash, but not end everything. -/
theorem Logger.Lasts.send_ne_exit {h : Host} {l : Logger} {lines : Nat} (hl : l.Lasts h lines)
    (h₁ : Host) (template : Bytes) (args : List Template.Arg) (h' : Host) :
    l.send template args h₁ ≠ .error .exit h' := by
  induction l generalizing template with
  | absent | journal level => exact hl.elim
  | indented text inner ih => exact ih hl (text ++ template)
  | recorder r =>
    show Host.record r _ h₁ ≠ _
    unfold Host.record
    split
    · exact fun he => nomatch he
    · dsimp only
      split
      · exact fun he => nomatch he
      · exact fun he => nomatch he

/-- Whether an effect logs a line. -/
def Effect.isNote : Effect → Bool
  | .note _ => true
  | .write _ => false

namespace Session

/-- The sinks take all that they are given, no buffer has kept an error, and the logger, if there is
one, lasts for so many lines. Nothing is asked of flushes. -/
structure Lasts (lines : Nat) (s : Session) : Prop where
  outlet : s.outlet ≠ []
  sinks : ∀ w ∈ s.outlet, ∀ i, w.sink? s.host = some i → s.host.Accepts i
  failures : ∀ w ∈ s.outlet, w.failure? s.host = none
  logger : s.logger.isPresent = true → s.logger.Lasts s.host lines

variable {s s' : Session} {c : Context} {n k more : Nat}

/-- The number of lines that a run of so many instructions logs, but for that of a halt. -/
def lines (s : Session) (c : Context) (n : Nat) : Nat :=
  1 + (s.effects c n).countP Effect.isNote +
    if outcomeOf s.program (s.execution c 0 n) = .ended none then 1 else 0

theorem Lasts.mono (hs : s.Lasts more) (hle : k ≤ more) : s.Lasts k :=
  ⟨hs.outlet, hs.sinks, hs.failures, fun hl => (hs.logger hl).mono rfl hle⟩

theorem Lasts.keeps (hs : s.Lasts more) (hkeeps : s.host.Keeps s'.host)
    (houtlet : s'.outlet = s.outlet) (hlogger : s'.logger.isPresent = true → s'.logger.Lasts s'.host k) :
    s'.Lasts k := by
  refine ⟨?_, ?_, ?_, hlogger⟩
  · rw [houtlet]; exact hs.outlet
  · rw [houtlet]
    intro w hw i hi
    rw [hkeeps.sink?] at hi
    exact (hkeeps.accepts i).mpr (hs.sinks w hw i hi)
  · rw [houtlet]
    intro w hw
    rw [hkeeps.writer_failure?]
    exact hs.failures w hw

theorem Lasts.log (hs : s.Lasts (k + 1)) (mark text : Bytes) :
    ∃ s', Session.log mark text s = .ok () s' ∧ s'.Lasts k := by
  cases hl : s.logger.isPresent with
  | true =>
    obtain ⟨h, hsend, hlasts⟩ := (hs.logger hl).send (bytes "%v %v")
      [.text (padMark s.markWidth mark), .text text]
    obtain ⟨hlogs, -⟩ := Host.logs_of_send hsend
    exact ⟨_, log_eq_ok.mpr (.inl ⟨hl, h, hsend, rfl⟩), hs.keeps hlogs.keeps rfl fun _ => hlasts⟩
  | false => exact ⟨s, log_eq_ok.mpr (.inr ⟨hl, rfl⟩), hs.mono (Nat.le_succ k)⟩

theorem Lasts.writeText (hs : s.Lasts k) (text : Bytes) :
    ∃ s', Session.writeText text s = .ok () s' ∧ s'.Lasts k := by
  obtain ⟨h, hwrite, hspreads⟩ :=
    Outlet.spreads_writeText_of_accepts hs.sinks hs.outlet hs.failures text
  have hunlogged := Act.Relates.ok (Outlet.writeText_unlogged s.outlet text) hwrite
  exact ⟨_, writeText_eq_ok.mpr ⟨_, h, hwrite, rfl, rfl⟩, hs.keeps hspreads.keeps rfl fun hl =>
    (hs.logger hl).mono hunlogged.recorders (Nat.le_refl k)⟩

theorem Lasts.carryOut {es : List Effect} (hs : s.Lasts (es.countP Effect.isNote + k)) :
    ∃ s', Session.carryOut es s = .ok () s' ∧ s'.Lasts k := by
  induction es generalizing s with
  | nil => exact ⟨s, rfl, hs.mono (Nat.le_add_left k _)⟩
  | cons e rest ih =>
    have hfirst : ∃ s₁, act e s = .ok () s₁ ∧ s₁.Lasts (rest.countP Effect.isNote + k) := by
      cases e with
      | write text =>
        rw [List.countP_cons_of_neg Bool.false_ne_true] at hs
        exact hs.writeText text
      | note n =>
        rw [List.countP_cons_of_pos rfl, Nat.add_right_comm] at hs
        obtain ⟨s₁, hlog, hs₁⟩ := hs.log n.mark n.render
        exact ⟨s₁, (note_eq_log n s).trans hlog, hs₁⟩
    obtain ⟨s₁, hact, hs₁⟩ := hfirst
    obtain ⟨s', hrest, hs'⟩ := ih hs₁
    exact ⟨s', (Act.bind_ok hact).trans hrest, hs'⟩

theorem Lasts.inner (hs : s.Lasts k) : s.inner.Lasts k := by
  unfold Session.inner
  split
  · next hl => exact ⟨hs.outlet, hs.sinks, hs.failures, fun _ => hs.logger hl⟩
  · exact hs

theorem Lasts.of_inner (hs : s'.Lasts k) (hlogger : s'.logger = s.inner.logger) :
    Lasts k { s' with logger := s.logger } := by
  refine ⟨hs.outlet, hs.sinks, hs.failures, fun hl => ?_⟩
  have hinner : s'.logger = .indented (bytes "\t") s.logger := by
    rw [hlogger]
    unfold Session.inner
    rw [if_pos hl]
  have hlasts := hs.logger (by rw [hinner]; rfl)
  rw [hinner] at hlasts
  exact hlasts

theorem Lasts.start (hs : s.Lasts (k + 1)) : ∃ s', Session.start s = .ok () s' ∧ s'.Lasts k := by
  unfold Session.start
  rw [Act.get_bind]
  cases s.listing with
  | none => exact hs.log _ _
  | some coloured =>
    obtain ⟨s₁, hwrite, hs₁⟩ := hs.writeText (Listing.render s.program coloured)
    obtain ⟨s', hlog, hs'⟩ := hs₁.log (bytes "#")
      (bytes "run " ++ Decimal.ofNat s.program.size ++ bytes " instructions")
    exact ⟨s', (Act.bind_ok hwrite).trans hlog, hs'⟩

/-- A run of a session that lasts long enough can be rehearsed. -/
theorem rehearse_of_lasts (hs : s.Lasts (s.lines c n + k)) :
    ∃ s', rehearse c n s = .ok () s' ∧ s'.Lasts k := by
  rw [lines, Nat.add_assoc, Nat.add_assoc, Nat.add_comm 1] at hs
  obtain ⟨s₁, hstart, hs₁⟩ := hs.start
  obtain ⟨t₂, hcarry, ht₂⟩ := hs₁.inner.carryOut
  have hs₂ := ht₂.of_inner ((carryOut_beside _).ok hcarry).within.logger
  have hindented := indented_carryOut_eq_ok.mpr ⟨t₂, hcarry, rfl⟩
  have hend : ∃ s', logEnd s.program (s.execution c 0 n) { t₂ with logger := s₁.logger } =
      .ok () s' ∧ s'.Lasts k := by
    unfold logEnd
    split
    · next hnone =>
      rw [if_pos hnone, Nat.add_comm] at hs₂
      exact hs₂.log _ _
    · next hnone =>
      rw [if_neg hnone, Nat.zero_add] at hs₂
      exact ⟨_, rfl, hs₂⟩
  obtain ⟨s', hlog, hs'⟩ := hend
  exact ⟨s', rehearse_eq_ok.mpr ⟨s₁, _, hstart, hindented, hlog⟩, hs'⟩

/-- Nothing but a sink could end everything. -/
theorem Lasts.neverExits (hs : s.Lasts k) : s.NeverExits := by
  refine ⟨Outlet.flush_ne_exit fun w hw i hi => (hs.sinks w hw i hi).honest.calm,
    fun template args h => ?_⟩
  cases hl : s.logger.isPresent with
  | true => exact (hs.logger hl).send_ne_exit _ template args h
  | false =>
    have habsent : s.logger = .absent := by simpa [Logger.isPresent] using hl
    rw [habsent]
    exact fun he => nomatch he

end Session

open Session in
/-- **A halt never masks its cause.** Let the surroundings of a run bear all that it writes and all
lines that it logs, but for the line of a halt; a flush of the outlet may fail or crash, and so may
that line. Then the run goes through the same instructions as on an output that never fails, to the
same machine. If it halts there with an error, it returns this error. If it comes to its end there,
it returns the first error of the last flush, or the crash of that; a sink returns no halt, and no
buffer may have kept one at first, since a run that is handed a halt returns the reason of that. -/
theorem run_keeps_cause {s s' : Session} {c : Context} {n : Nat} (houtlet : s.outlet ≠ [])
    (hbears : rehearse c n s = .ok () s') (hexit : s'.NeverExits) :
    (∀ k ≤ n, (s.run c k).2.machine = (s.silent.onMemory.run c k).2.machine ∧
      ((s.run c k).1 = .unfinished ↔ (s.silent.onMemory.run c k).1 = .unfinished)) ∧
    (∀ e, (s.silent.onMemory.run c n).1 = .ended (some e) → (s.run c n).1 = .ended (some e)) ∧
    ((∀ w ∈ s.outlet, Error.NoHalt (w.failure? s.host)) →
      (s.silent.onMemory.run c n).1 = .ended none → ∃ es crash,
        Outlet.Flushes s.outlet s'.host es crash (s.run c n).2.host ∧
        (s.run c n).1 = .ended (Outlet.verdict es crash)) := by
  have hideal : ∀ k, (s.silent.onMemory.run c k).1 = outcomeOf s.program (s.execution c 0 k) ∧
      (s.silent.onMemory.run c k).2.machine = (s.execution c 0 k).machine := fun k =>
    ⟨run_onMemory_fst (s := s.silent) rfl c k,
      (run_snd_of_steady (steady_onMemory (s := s.silent) rfl) c k).machine⟩
  have hsame : s'.outlet = s.outlet := ((rehearse_within c n).ok hbears).outlet
  obtain ⟨-, hother, hnone⟩ := run_of_rehearse hbears fun _ => hexit
  refine ⟨fun k hk => ?_, fun e he => ?_, fun hkept he => ?_⟩
  · obtain ⟨t, hbears', hover⟩ := rehearse_of_le hbears hk
    obtain ⟨hmachine, hother', hnone'⟩ := run_of_rehearse hbears' fun h => hover h ▸ hexit
    rw [(hideal k).1, (hideal k).2]
    refine ⟨hmachine, ?_⟩
    by_cases hend : outcomeOf s.program (s.execution c 0 k) = .ended none
    · rw [(hnone' hend).1, hend]
      exact ⟨fun h => (nomatch h), fun h => (nomatch h)⟩
    · rw [hother' hend]
  · rw [(hideal n).1] at he
    rw [hother (by rw [he]; exact fun h => nomatch h), he]
  · rw [(hideal n).1] at he
    obtain ⟨hfst, hhost⟩ := hnone he
    have hflush := hexit.flush
    rw [hsame] at hflush
    have hkept' : ∀ w ∈ s.outlet, Error.NoHalt (w.failure? s'.host) := fun w hw =>
      (sticks_of_rehearse hbears).writer_noHalt (hkept w hw)
    obtain ⟨es, crash, hflushes, hverdict⟩ := Outlet.flushes_flush houtlet hflush hkept'
    exact ⟨es, crash, hhost ▸ hflushes, by rw [hfst, hverdict]⟩

/-- A session that writes to two sinks, of which one fails in a flush and the other one crashes; its
fifth log line crashes. -/
def Session.unflushed (p : Program) : Session where
  program := p
  logger := .recorder 0
  outlet := [.flushing 0, .flushing 1]
  host :=
    { sinks := #[
        { kind := .flushing, policy := { flush := fun _ => .done (some (.external (bytes "full"))) } },
        { kind := .flushing, policy := { flush := fun _ => .crash (bytes "gone") } }]
      recorders := #[{ crash := fun k => if k = 5 then some (bytes "no space") else none }] }

theorem Session.lasts_unflushed (p : Program) : (Session.unflushed p).Lasts 4 := by
  refine ⟨by simp [Session.unflushed], fun w hw i hi q hq past data => ?_, fun w hw => ?_,
    fun _ x hx k hlow hhigh => ?_⟩
  · match i with
    | 0 | 1 => cases hq; rfl
    | _ + 2 => cases hq
  · have hmem : w = .flushing 0 ∨ w = .flushing 1 := by simpa [Session.unflushed] using hw
    rcases hmem with rfl | rfl <;> rfl
  · obtain rfl := Option.some.inj hx
    have hle : k ≤ 4 := hhigh
    exact if_neg (by omega)

/-- The code `1 print dup`. -/
def Program.printDup : Program where
  code := #[.push 1, { op := .print }, { op := .dup }]
  targets := #[none, none, none]

/-- The flush crashes and the line of the halt does, and the run returns the reason of the halt. -/
theorem run_keeps_cause_printDup :
    ((Session.unflushed .printDup).run .never 3).1 = .ended (some (.underflow .dup)) := by
  have hlines : (Session.unflushed .printDup).lines .never 3 = 4 := by decide +kernel
  obtain ⟨s', hbears, hs'⟩ := Session.rehearse_of_lasts (s := .unflushed .printDup) (c := .never)
    (n := 3) (k := 0) (hlines ▸ Session.lasts_unflushed .printDup)
  obtain ⟨-, hcause, -⟩ := run_keeps_cause (by decide) hbears hs'.neverExits
  exact hcause _ (by decide +kernel)

-- At the end of a program the crash of the second sink counts, and not the error of the first one.
example : ((Session.unflushed ⟨#[.push 1, { op := .print }], #[none, none]⟩).run .never 2).1 =
    .ended (some (.crashed Session.name (bytes "gone"))) := by decide +kernel

end WordStack
