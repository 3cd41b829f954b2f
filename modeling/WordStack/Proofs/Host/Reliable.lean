import WordStack.Proofs.Host.Delivery

/-!
# Reliable output

A writer is reliable if the sink behind it takes all that it is given, flushes of that sink succeed
where it is flushed itself, and the buffer in front of it, if there is one, holds no error. Such a
sink is honest and never fails, so every write and flush succeeds. Where only the flush of a sink
itself may fail, still all that waits is passed on.

* `Outlet.spreads_writeText_of_accepts`, `Outlet.empties_flush_of_accepts`: what an outlet of writers
  to sinks that take everything does.
* `Outlet.spreads_writeText`, `Outlet.spreads_flush`: what an outlet of reliable writers does; each
  sink that only one of them passes bytes on to gets the text once; a flush leaves nothing waiting.
-/
namespace WordStack

namespace Writer

/-- Every write and flush succeeds. -/
structure Reliable (h : Host) (w : Writer) : Prop where
  accepts : ∀ i, w.sink? h = some i → h.Accepts i
  flushes : ∀ i p, w = .flushing i → h.policy? i = some p → ∀ past, p.flush past = .done none
  failure : w.failure? h = none

theorem Reliable.honest {h : Host} {w : Writer} (hw : w.Reliable h) : w.Honest h :=
  ⟨fun i hi => (hw.accepts i hi).honest, hw.flushes⟩

end Writer

theorem Host.Keeps.reliable {h h' : Host} {w : Writer} (k : h.Keeps h') (hw : w.Reliable h) :
    w.Reliable h' := by
  refine ⟨?_, ?_, ?_⟩
  · simp only [k.sink?, k.accepts]; exact hw.accepts
  · rw [k.policies]; exact hw.flushes
  · rw [k.writer_failure?]; exact hw.failure

namespace Writer

variable {h h' : Host} {w : Writer}

open Host

/-- A flush returns if the sink returns from it. -/
theorem exists_flush (hcalm : ∀ i, w.sink? h = some i → h.Calm i)
    (hreturns : ∀ i p, w = .flushing i → h.policy? i = some p → ∀ past, ∃ e, p.flush past = .done e) :
    ∃ e h', w.flush h = .ok e h' := by
  cases w with
  | discard | direct i => exact ⟨none, h, rfl⟩
  | flushing i => exact exists_flushSink (hreturns i · rfl)
  | buffered b => exact exists_flushBuffer hcalm

/-- A flush passes on all that waits if the sink accepts it, even if the flush of the sink itself
fails. -/
theorem empties_of_flush {e : Option Error} (hf : w.failure? h = none)
    (haccepts : ∀ i, w.sink? h = some i → h.Accepts i) (hflush : w.flush h = .ok e h') :
    h.Empties w h' := by
  cases w with
  | discard | direct i =>
    cases hflush
    exact ⟨Passes.refl _ h, rfl, fun _ hv => hv⟩
  | flushing i =>
    obtain ⟨hc, hreceived, -⟩ := calls_of_flushSink hflush
    refine ⟨hc.passes rfl (fun _ => by rw [hreceived, List.append_nil]) rfl, rfl, fun v hv => ?_⟩
    rw [hc.held]; exact hv
  | buffered b =>
    obtain ⟨hflushes, -, hfails⟩ := flushes_of_flushBuffer hflush
    cases e with
    | none => exact hflushes.empties rfl
    | some error =>
      obtain ⟨i, hi, -, hrefuses⟩ := hfails hf rfl
      rw [hflushes.sticks.sink?] at hi
      exact absurd ((hflushes.sticks.accepts i).mpr (haccepts i hi)) hrefuses

end Writer

namespace Outlet

open Host

section
variable {h h' : Host} {ws : Outlet}
  (haccepts : ∀ w ∈ ws, ∀ i, w.sink? h = some i → h.Accepts i)

include haccepts

/-- No sink that takes all that it is given can have failed in a write. -/
theorem not_failed_of_accepts (r : h.Resembles h') : ¬ Failed h' ws := by
  rintro ⟨w, hw, i, hi, -, hrefuses⟩
  rw [r.sink?] at hi
  exact hrefuses ((r.accepts i).mpr (haccepts w hw i hi))

variable (hne : ws ≠ []) (hf : ∀ w ∈ ws, w.failure? h = none)

include hne hf

/-- The outlet takes all of a text. -/
theorem spreads_writeText_of_accepts (text : Bytes) :
    ∃ h', writeText ws text h = .ok ⟨text.length, none⟩ h' ∧ Spreads ws text h h' := by
  obtain ⟨r, h', hwrite, ⟨rfl, hs⟩ | ⟨-, ht, hfailed⟩⟩ := takes_writeText hne
    (fun w hw i hi => (haccepts w hw i hi).honest) hf text
  · exact ⟨h', hwrite, hs⟩
  · exact absurd hfailed (not_failed_of_accepts haccepts ht.resembles)

omit hne

theorem empties_attemptAll_of_accepts (hreturns : ∀ w ∈ ws, ∀ i p, w = .flushing i →
    h.policy? i = some p → ∀ past, ∃ e, p.flush past = .done e) :
    ∃ e h', attemptAll Writer.flush ws h = .ok e h' ∧ Empties ws h h' := by
  induction ws generalizing h with
  | nil => exact ⟨none, h, rfl, Empties.nil h⟩
  | cons w rest ih =>
    have haccepts' := haccepts w List.mem_cons_self
    obtain ⟨e₁, h₁, hflush⟩ := Writer.exists_flush
      (fun i hi => (haccepts' i hi).honest.calm) (hreturns w List.mem_cons_self)
    have hempties := Writer.empties_of_flush (hf w List.mem_cons_self) haccepts' hflush
    have hk := hempties.passes.keeps
    obtain ⟨e₂, h₂, hrest, hempties'⟩ := ih
      (fun v hv i hi => by
        rw [hk.sink?] at hi
        exact (hk.accepts i).mpr (haccepts v (List.mem_cons_of_mem _ hv) i hi))
      (fun v hv => by rw [hk.writer_failure?]; exact hf v (List.mem_cons_of_mem _ hv))
      (fun v hv => by rw [hk.policies]; exact hreturns v (List.mem_cons_of_mem _ hv))
    refine ⟨e₁ <|> e₂, h₂, ?_, Empties.cons hempties hempties'⟩
    rw [attemptAll, Act.bind_ok hflush, Act.bind_ok hrest]; rfl

include hne

/-- After a flush of the outlet nothing waits, even if flushes of sinks fail. -/
theorem empties_flush_of_accepts (hreturns : ∀ w ∈ ws, ∀ i p, w = .flushing i →
    h.policy? i = some p → ∀ past, ∃ e, p.flush past = .done e) :
    ∃ e h', flush ws h = .ok e h' ∧ Empties ws h h' := by
  match ws with
  | [] => exact absurd rfl hne
  | [w] =>
    have haccepts' := haccepts w List.mem_cons_self
    obtain ⟨e, h', hflush⟩ := Writer.exists_flush
      (fun i hi => (haccepts' i hi).honest.calm) (hreturns w List.mem_cons_self)
    exact ⟨e, h', hflush, Empties.cons
      (Writer.empties_of_flush (hf w List.mem_cons_self) haccepts' hflush) (Empties.nil h')⟩
  | _ :: _ :: _ => exact empties_attemptAll_of_accepts haccepts hf hreturns

end

variable {h : Host} {ws : Outlet} (hws : ∀ w ∈ ws, w.Reliable h) (hne : ws ≠ [])

include hws hne

/-- The outlet takes all of a text. -/
theorem spreads_writeText (text : Bytes) :
    ∃ h', writeText ws text h = .ok ⟨text.length, none⟩ h' ∧ Spreads ws text h h' :=
  spreads_writeText_of_accepts (fun w hw => (hws w hw).accepts) hne
    (fun w hw => (hws w hw).failure) text

/-- After a flush of the outlet nothing waits. -/
theorem spreads_flush :
    ∃ h', flush ws h = .ok none h' ∧ Spreads ws [] h h' ∧ ∀ w ∈ ws, w.held h' = [] := by
  obtain ⟨e, h', hflush, ht, -, hend⟩ := empties_flush hne fun w hw => (hws w hw).honest
  rcases hend fun w hw => (hws w hw).failure with ⟨rfl, hempties⟩ | ⟨-, hfailed⟩
  · exact ⟨h', hflush, hempties.spreads, hempties.held⟩
  · exact absurd hfailed (not_failed_of_accepts (fun w hw => (hws w hw).accepts) ht.resembles)

end Outlet

end WordStack
