import WordStack.Proofs.Session.Stepwise

/-!
# Runs that return without an error

A run that is aborted returns an error. Sinks and loggers abort it by a crash with a text, by a fault,
or by ending everything, and an instruction or a write that fails halts it with a reason. The only
abort that would give no error is a halt without a reason, and nothing in a run halts so.

* `Act.Aborts`: what a computation is aborted by.
* `Abort.Foreign`: the aborts that come from the host. `Abort.Told`: the aborts that a run tells.
* `Session.returns_of_run`: so a run that returns without an error came through all of its parts.
-/
namespace WordStack

namespace Act

variable {σ α β : Type} {P Q : Abort → Prop} {act : Act σ α} {k : α → Act σ β}

/-- Whatever aborts the computation satisfies `P`. -/
def Aborts (P : Abort → Prop) (act : Act σ α) : Prop := ∀ s e s', act s = .error e s' → P e

theorem Aborts.bind (hact : Aborts P act) (hk : ∀ a, Aborts P (k a)) : Aborts P (act >>= k) := by
  intro s e s' h
  rcases bind_eq_error.mp h with ha | ⟨a, s₁, -, hrest⟩
  · exact hact s e s' ha
  · exact hk a s₁ e s' hrest

theorem Aborts.mono (hact : Aborts P act) (h : ∀ e, P e → Q e) : Aborts Q act :=
  fun s e s' he => h e (hact s e s' he)

theorem aborts_pure (a : α) : Aborts P (pure a : Act σ α) := fun _ _ _ h => nomatch h

theorem aborts_get : Aborts P (get : Act σ σ) := fun _ _ _ h => nomatch h

theorem aborts_set (s : σ) : Aborts P (set s : Act σ PUnit) := fun _ _ _ h => nomatch h

theorem aborts_modify (f : σ → σ) : Aborts P (modify f : Act σ PUnit) := fun _ _ _ h => nomatch h

theorem aborts_fault (f : Fault) (h : P (.crash (.error (.fault f)))) :
    Aborts P (fault f : Act σ α) := by
  intro s e s' he
  cases he
  exact h

end Act

/-- An abort that comes from the host: it carries no error but a fault. -/
def Abort.Foreign : Abort → Prop
  | .crash (.error e) => ∃ f, e = .fault f
  | .crash (.text _) | .exit => True

/-- An abort after which a run returns an error. -/
def Abort.Told (e : Abort) : Prop := ((e.toError Session.name).withoutHalt).isSome = true

theorem Abort.Foreign.told {e : Abort} (h : e.Foreign) : e.Told := by
  match e with
  | .crash (.error _) => obtain ⟨f, rfl⟩ := h; rfl
  | .crash (.text _) | .exit => rfl

open Act (Aborts)

/-! ## The host -/

namespace Host

theorem writeSink_foreign (i : Nat) (data : Bytes) : Aborts Abort.Foreign (writeSink i data) := by
  intro h e h' he
  unfold writeSink at he
  split at he
  · cases he
  split at he
  · cases he
  split at he <;> cases he <;> trivial

theorem flushSink_foreign (i : Nat) : Aborts Abort.Foreign (flushSink i) := by
  intro h e h' he
  unfold flushSink at he
  split at he
  · cases he
  dsimp only at he
  split at he <;> cases he
  trivial

theorem flushBuffer_foreign (b : Nat) : Aborts Abort.Foreign (flushBuffer b) := by
  refine Act.aborts_get.bind fun h => ?_
  split
  · exact Act.aborts_pure _
  split
  · exact Act.aborts_pure _
  split
  · exact Act.aborts_pure _
  · exact (writeSink_foreign _ _).bind fun _ =>
      (Act.aborts_modify _).bind fun _ => Act.aborts_pure _

theorem writeRounds_foreign (direct : Bool) (b rounds : Nat) (data : Bytes) (count : Nat) :
    Aborts Abort.Foreign (writeRounds direct b rounds data count) := by
  induction rounds generalizing data count with
  | zero => exact Act.aborts_pure _
  | succ rounds ih =>
    refine Act.aborts_get.bind fun h => ?_
    split
    · exact Act.aborts_pure _
    dsimp only
    split
    · exact Act.aborts_pure _
    split
    · exact (Act.aborts_modify _).bind fun _ => Act.aborts_pure _
    split
    · exact (writeSink_foreign _ _).bind fun _ => (Act.aborts_modify _).bind fun _ => ih _ _
    · exact (Act.aborts_modify _).bind fun _ => (flushBuffer_foreign b).bind fun _ => ih _ _

theorem record_foreign (r : Nat) (line : Bytes) : Aborts Abort.Foreign (record r line) := by
  intro h e h' he
  unfold record at he
  split at he
  · cases he
  dsimp only at he
  split at he <;> cases he
  trivial

theorem report_foreign (level text : Bytes) (args : List Template.Arg) :
    Aborts Abort.Foreign (report level text args) := by
  refine Act.aborts_get.bind fun h => ?_
  dsimp only
  split
  · exact Act.aborts_pure _
  refine (Act.aborts_modify _).bind fun _ => ?_
  split
  · exact Act.aborts_pure _
  · exact (writeSink_foreign _ _).bind fun _ => Act.aborts_modify _

end Host

theorem Logger.send_foreign (l : Logger) (template : Bytes) (args : List Template.Arg) :
    Aborts Abort.Foreign (l.send template args) := by
  induction l generalizing template with
  | absent => exact Act.aborts_fault _ ⟨_, rfl⟩
  | recorder r => exact Host.record_foreign r _
  | journal level => exact Host.report_foreign level template args
  | indented text inner ih => exact ih (text ++ template)

namespace Writer

theorem write_foreign (w : Writer) (data : Bytes) : Aborts Abort.Foreign (w.write data) := by
  cases w with
  | discard => exact Act.aborts_pure _
  | direct i | flushing i => exact Host.writeSink_foreign i data
  | buffered b => exact Host.writeRounds_foreign true b _ data 0

theorem writeText_foreign (w : Writer) (text : Bytes) : Aborts Abort.Foreign (w.writeText text) := by
  cases w with
  | buffered b => exact Host.writeRounds_foreign false b _ text 0
  | discard => exact write_foreign .discard text
  | direct i => exact write_foreign (.direct i) text
  | flushing i => exact write_foreign (.flushing i) text

theorem flush_foreign (w : Writer) : Aborts Abort.Foreign w.flush := by
  cases w with
  | discard | direct i => exact Act.aborts_pure _
  | flushing i => exact Host.flushSink_foreign i
  | buffered b => exact Host.flushBuffer_foreign b

end Writer

namespace Outlet

theorem fanWrite_foreign (ws : Outlet) (data : Bytes) :
    Aborts Abort.Foreign (fanWrite Writer.write ws data) := by
  induction ws with
  | nil => exact Act.aborts_pure _
  | cons w rest ih =>
    refine (w.write_foreign data).bind fun r => ?_
    split
    · exact Act.aborts_pure _
    split
    · exact Act.aborts_pure _
    · exact ih

theorem attemptAll_foreign (ws : Outlet) : Aborts Abort.Foreign (attemptAll Writer.flush ws) := by
  induction ws with
  | nil => exact Act.aborts_pure _
  | cons w rest ih => exact w.flush_foreign.bind fun _ => ih.bind fun _ => Act.aborts_pure _

theorem writeText_foreign (ws : Outlet) (text : Bytes) :
    Aborts Abort.Foreign (writeText ws text) := by
  match ws with
  | [] => exact Act.aborts_fault _ ⟨_, rfl⟩
  | [w] => exact w.writeText_foreign text
  | _ :: _ :: _ => exact fanWrite_foreign _ text

theorem flush_foreign (ws : Outlet) : Aborts Abort.Foreign (flush ws) := by
  match ws with
  | [] => exact Act.aborts_fault _ ⟨_, rfl⟩
  | [w] => exact w.flush_foreign
  | _ :: _ :: _ => exact attemptAll_foreign _

end Outlet

/-! ## The session -/

namespace Session

variable {s s' : Session}

theorem onHost_eq_error {α : Type} {act : Act Host α} {e : Abort} (h : onHost act s = .error e s') :
    ∃ host, act s.host = .error e host ∧ s' = { s with host } := by
  unfold onHost Act.zoom at h
  split at h
  · cases h
  · next host hact => cases h; exact ⟨host, hact, rfl⟩

theorem onHost_foreign {α : Type} {act : Act Host α} (h : Aborts Abort.Foreign act) :
    Aborts Abort.Foreign (onHost act) := by
  intro s e s' he
  obtain ⟨host, hact, rfl⟩ := onHost_eq_error he
  exact h _ _ _ hact

theorem log_foreign (mark text : Bytes) : Aborts Abort.Foreign (log mark text) := by
  refine Act.aborts_get.bind fun s => ?_
  split
  · exact (Act.aborts_set _).bind fun _ => onHost_foreign (s.logger.send_foreign _ _)
  · exact Act.aborts_pure _

theorem note_foreign (n : Note) : Aborts Abort.Foreign (note n) := by
  refine Act.aborts_get.bind fun s => ?_
  split
  · exact log_foreign _ _
  · exact Act.aborts_pure _

/-- A reason is kept, whatever the flush says. -/
theorem settle_eq_ok {reason : Error} {e : Option Error}
    (h : settle (some reason) s = .ok e s') : e = some reason := by
  unfold settle at h
  split at h
  · cases h; rfl
  split at h <;> cases h
  · rfl
  · rfl

theorem settle_foreign (reason : Option Error) : Aborts Abort.Foreign (settle reason) := by
  intro s e s' h
  unfold settle at h
  split at h
  · cases h
  split at h <;> cases h
  trivial

theorem shield_foreign {act : M Unit} (h : Aborts Abort.Foreign act) :
    Aborts Abort.Foreign (Act.shield act) := by
  intro s e s' he
  unfold Act.shield at he
  split at he
  · cases he
  · exact h _ _ _ he

theorem halt_told {α : Type} (reason : Error) : Aborts Abort.Told (halt (some reason) : M α) := by
  intro s e s' h
  rcases Act.bind_eq_error.mp h with hs | ⟨e₁, s₁, hs, hrest⟩
  · exact (settle_foreign _ _ _ _ hs).told
  · rw [settle_eq_ok hs] at hrest
    refine Aborts.bind ((shield_foreign (log_foreign _ _)).mono fun _ => Abort.Foreign.told)
      (fun _ => ?_) s₁ e s' hrest
    intro s e s' hcrash
    cases hcrash
    rfl

theorem haltIf_told (reason : Option Error) : Aborts Abort.Told (haltIf reason) := by
  cases reason with
  | none => exact Act.aborts_pure _
  | some e => exact halt_told e

theorem writeText_told (text : Bytes) : Aborts Abort.Told (writeText text) := by
  refine Act.aborts_get.bind fun s => Aborts.bind ?_ fun r : Wrote => haltIf_told r.error
  exact (onHost_foreign (s.outlet.writeText_foreign text)).mono fun _ => Abort.Foreign.told

theorem play_told (script : Script) : Aborts Abort.Told (play script) := by
  induction script with
  | done m => exact Act.aborts_modify _
  | halt reason m => exact (Act.aborts_modify _).bind fun _ => halt_told reason
  | fault f m =>
    exact (Act.aborts_modify _).bind fun _ => Act.aborts_fault f (Abort.Foreign.told ⟨f, rfl⟩)
  | note n m rest ih =>
    exact (Act.aborts_modify _).bind fun _ =>
      ((note_foreign n).mono fun _ => Abort.Foreign.told).bind fun _ => ih
  | write text m rest ih =>
    exact (Act.aborts_modify _).bind fun _ => (writeText_told text).bind fun _ => ih

theorem execute_told (c : Context) (fuel asked : Nat) : Aborts Abort.Told (execute c fuel asked) := by
  induction fuel generalizing asked with
  | zero => exact Act.aborts_get.bind fun _ => Act.aborts_get.bind fun _ => Act.aborts_pure _
  | succ fuel ih =>
    refine Act.aborts_get.bind fun s => ?_
    split
    · exact (Act.aborts_get.bind fun s => play_told _).bind fun _ =>
        (haltIf_told _).bind fun _ => ih _
    · exact Act.aborts_pure _

theorem start_told : Aborts Abort.Told start := by
  have hlog : ∀ text, Aborts Abort.Told (log (bytes "#") text) := fun text =>
    (log_foreign _ text).mono fun _ => Abort.Foreign.told
  refine Act.aborts_get.bind fun s => ?_
  cases s.listing with
  | none => exact hlog _
  | some coloured => exact (writeText_told _).bind fun _ => hlog _

theorem finish_told : Aborts Abort.Told finish := by
  refine Aborts.mono ?_ fun _ => Abort.Foreign.told
  exact Act.aborts_get.bind fun s => (log_foreign _ _).bind fun _ =>
    onHost_foreign s.outlet.flush_foreign

theorem indented_told {α : Type} {act : M α} (h : Aborts Abort.Told act) :
    Aborts Abort.Told (indented act) := by
  intro s e s' he
  unfold indented at he
  split at he
  · split at he
    · cases he
    · next ha => cases he; exact h _ _ _ ha
  · exact h _ _ _ he

theorem proceed_told (c : Context) (fuel asked : Nat) : Aborts Abort.Told (proceed c fuel asked) := by
  refine (indented_told (execute_told c fuel asked)).bind fun stopped => ?_
  split
  · exact finish_told.bind fun _ => Act.aborts_pure _
  · exact Act.aborts_pure _

/-- A run that returns without an error came through its start, its instructions and its end; the
last flush returned no error but a halt without a reason. -/
theorem returns_of_run {c : Context} {fuel : Nat} (h : s.run c fuel = (.ended none, s')) :
    ∃ s₁ s₂ error, start s = .ok () s₁ ∧ indented (execute c fuel 0) s₁ = .ok true s₂ ∧
      finish s₂ = .ok error s' ∧ error.bind Error.withoutHalt = none := by
  obtain ⟨own, hact, hown⟩ : ∃ own : Outcome,
      (do start; proceed c fuel 0 : M Outcome) s = .ok own s' ∧ .ended none = own.withoutHalt := by
    obtain hact | ⟨e, hact, hnone⟩ := eq_of_contained h
    · exact hact
    · have htold := start_told.bind (fun _ => proceed_told c fuel 0) s e s' hact
      rw [Abort.Told, ← Outcome.ended.inj hnone] at htold
      cases htold
  obtain ⟨_, s₁, hstart, hproceed⟩ := Act.bind_eq_ok.mp hact
  obtain ⟨stopped, s₂, hexecute, hrest⟩ := Act.bind_eq_ok.mp hproceed
  cases stopped with
  | false => cases hrest; cases hown
  | true =>
    obtain ⟨error, s₃, hfinish, hreturn⟩ := Act.bind_eq_ok.mp hrest
    cases hreturn
    exact ⟨s₁, s₂, error, hstart, hexecute, hfinish, (Outcome.ended.inj hown).symm⟩

end Session

end WordStack
