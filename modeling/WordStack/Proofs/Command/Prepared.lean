import WordStack.Command.Run
import WordStack.Proofs.Command.Lines
import WordStack.Proofs.Session.Outputs
import WordStack.Proofs.Session.Settings

/-!
# The session of the command

The settings of a command load the program, set the standard output, and switch on what the flags ask
for; extra ones come behind. As long as none of them has the journal's sink for an output, the session
can be made, and its runs are no matter of the log but for the lines of a trace.

* `Setting.Beside`: the setting leaves the log alone.
* `Session.Prepared`: a session with such settings; nothing was written yet.
* `Session.exists_prepared`: so is the session of a command.
-/
namespace WordStack

open Host (Logged CodeTells)

/-- The setting has nothing to do with the sink `j` but lines of a trace. An output is only set where
flushes return, since the outlet before is flushed. -/
def Setting.Beside (h : Host) (j : Nat) : Setting → Prop
  | .output i => i ≠ j ∧ ∀ k p, h.policy? k = some p → ∀ past, ∃ e, p.flush past = .done e
  | .tee i => i ≠ j
  | .logger l => l.Traces
  | _ => True

/-- The settings of the flags beside the program and the output. -/
def Command.switches (c : Command) (flags : Flags) : List Setting :=
  (if flags.trace then [.logger (.journal (bytes "TRACE"))] else []) ++
    (if flags.strict then [.strict] else []) ++ if flags.dump then [.listing c.coloured] else []

theorem Command.flattenAll_settings (c : Command) (flags : Flags) (p : Program) :
    SettingTree.flattenAll (c.settings flags p) =
      .program p :: .output c.stdout :: (c.switches flags ++ SettingTree.flattenAll c.extra) := by
  obtain ⟨timeout, trace, strict, dump⟩ := flags
  cases trace <;> cases strict <;> cases dump <;>
    simp [settings, switches, SettingTree.flattenAll, SettingTree.flatten]

theorem Command.switches_beside (c : Command) (flags : Flags) (h : Host) (j : Nat) :
    ∀ x ∈ c.switches flags, x.Beside h j := by
  intro x hx
  simp only [switches, List.mem_append] at hx
  rcases hx with (hx | hx) | hx
  · split at hx <;> simp at hx
    rw [hx]; rfl
  · split at hx <;> simp at hx
    rw [hx]; trivial
  · split at hx <;> simp at hx
    rw [hx]; trivial

namespace Session

/-- Nothing was written yet, and the log is for the trace only. -/
structure Prepared (j : Nat) (h : Host) (s : Session) : Prop extends s.Tracing j h where
  outlet : s.outlet ≠ []
  fresh : ∀ w ∈ s.outlet, w.Fresh s.host
  policies : s.host.policy? = h.policy?

variable {j : Nat} {h : Host} {s : Session}

/-- An outlet that drops everything. -/
theorem prepared_of_discard (ho : s.outlet = [.discard])
    (hlogged : ∃ n, h.Logged j (.replicate n (bytes "TRACE")) s.host) (hcode : s.host.CodeTells j)
    (hlogger : s.logger.Traces) (hpolicies : s.host.policy? = h.policy?) : s.Prepared j h := by
  refine ⟨⟨hlogged, hcode, fun w hw => ?_, hlogger⟩, by simp [ho], fun w hw => ?_, hpolicies⟩
  · rw [ho, List.mem_singleton] at hw
    simp [hw, Writer.sink?]
  · rw [ho, List.mem_singleton] at hw
    rw [hw]
    refine ⟨rfl, rfl, fun b hb => ?_, fun i hi => ?_⟩
    · cases hb
    · cases hi

theorem prepared_fresh (hcode : h.CodeTells j) : (Session.fresh h).Prepared j h :=
  prepared_of_discard rfl ⟨0, Logged.refl j h⟩ hcode trivial rfl

/-- A new writer, beside some of those that are there. -/
theorem Prepared.attach {i : Nat} {w : Writer} {g : Host} {ws : Outlet} (hs : s.Prepared j h)
    (hopen : Writer.ofSink i s.host = .ok w g) (hi : i ≠ j) (hws : ws ⊆ s.outlet)
    (closers : List Nat) : Prepared j h { s with outlet := ws ++ [w], closers, host := g } := by
  obtain ⟨w', g', hopen', he, hsink, hfresh⟩ := Host.ofSink_fresh s.host i
  cases hopen.symm.trans hopen'
  obtain ⟨n, hlogged⟩ := hs.logged
  have heq := Host.ofSink_eq hopen
  refine ⟨⟨⟨n, ?_⟩, ?_, fun v hv => ?_, hs.logger⟩, by simp, fun v hv => ?_, ?_⟩
  · rw [heq]
    exact ⟨hlogged.output, hlogged.pending, hlogged.kind, hlogged.policy, hlogged.remembers,
      hlogged.lines⟩
  · show CodeTells j g
    rw [heq]; exact hs.code
  · show v.sink? g ≠ some j
    rcases List.mem_append.mp hv with hv | hv
    · rw [he.sink? (hs.fresh v (hws hv)).buffer]; exact hs.apart v (hws hv)
    · rw [List.mem_singleton.mp hv, hsink]
      intro hj
      exact hi (Host.slot?_eq_some.mp hj).1
  · rcases List.mem_append.mp hv with hv | hv
    · exact he.fresh (hs.fresh v (hws hv))
    · rw [List.mem_singleton.mp hv]; exact hfresh
  · show g.policy? = h.policy?
    rw [← hs.policies]
    exact funext fun k => by rw [Host.policy?, Host.policy?, he.sinks]

theorem Prepared.setOutput {i : Nat} (hs : s.Prepared j h) (hi : i ≠ j)
    (hreturns : ∀ w ∈ s.outlet, ∀ k p, w = .flushing k → s.host.policy? k = some p →
      ∀ past, ∃ e, p.flush past = .done e) :
    ∃ s', setOutput i s = .ok () s' ∧ s'.Prepared j h := by
  obtain ⟨e, g, hflush, hk⟩ :=
    Host.flush_of_empty hs.outlet (fun w hw => (hs.fresh w hw).held) hreturns
  obtain ⟨w, g', hopen, -⟩ := Host.ofSink_fresh g i
  have hspares : s.host.Spares (s.outlet.reach s.host) g := by
    have := Outlet.flush_spares (s.outlet.covers_reach s.host) fun w => Outlet.includes_reach s.host
    rwa [hflush] at this
  have htracing := hs.toTracing.of_spares hspares
  have hempty : Prepared j h { s with outlet := [.discard], host := g } :=
    prepared_of_discard rfl htracing.logged htracing.code hs.logger (hk.policies.trans hs.policies)
  exact ⟨_, setOutput_ok hs.outlet hflush hopen, hempty.attach hopen hi (List.nil_subset _) s.closers⟩

theorem Prepared.addTee {i : Nat} (hs : s.Prepared j h) (hi : i ≠ j) :
    ∃ s', addTee i s = .ok () s' ∧ s'.Prepared j h := by
  obtain ⟨w, g, hopen, -⟩ := Host.ofSink_fresh s.host i
  exact ⟨_, addTee_ok hopen, hs.attach hopen hi (List.Subset.refl _) _⟩

theorem Prepared.apply {x : Setting} (hs : s.Prepared j h) (hx : x.Beside h j) :
    ∃ s', apply x s = .ok () s' ∧ s'.Prepared j h := by
  have hsame : ∀ (p : Program) (m : Machine) (strict : Bool) (listing : Option Bool),
      Prepared j h { s with program := p, machine := m, strict, listing } := fun _ _ _ _ =>
    ⟨⟨hs.logged, hs.code, hs.apart, hs.logger⟩, hs.outlet, hs.fresh, hs.policies⟩
  cases x with
  | output i =>
    refine hs.setOutput hx.1 fun w _ k p _ hp => hx.2 k p ?_
    rwa [← hs.policies]
  | tee i => exact hs.addTee hx
  | logger l =>
    exact ⟨_, rfl, ⟨hs.logged, hs.code, hs.apart, hx⟩, hs.outlet, hs.fresh, hs.policies⟩
  | program p => exact ⟨_, rfl, hsame _ _ _ _⟩
  | strict => exact ⟨_, rfl, hsame _ _ _ _⟩
  | listing coloured => exact ⟨_, rfl, hsame _ _ _ _⟩
  | values vs => exact ⟨_, rfl, hsame _ _ _ _⟩
  | position p => exact ⟨_, rfl, hsame _ _ _ _⟩

theorem Prepared.applyEach {xs : List Setting} (hs : s.Prepared j h)
    (hxs : ∀ x ∈ xs, x.Beside h j) : ∃ s', applyEach xs s = .ok () s' ∧ s'.Prepared j h := by
  induction xs generalizing s with
  | nil => exact ⟨s, rfl, hs⟩
  | cons x rest ih =>
    obtain ⟨s₁, hfirst, hs₁⟩ := hs.apply (hxs x List.mem_cons_self)
    obtain ⟨s₂, hrest, hs₂⟩ := ih hs₁ fun y hy => hxs y (List.mem_cons_of_mem _ hy)
    exact ⟨s₂, (Act.bind_ok hfirst).trans hrest, hs₂⟩

/-- A command makes a session with its settings. The first output takes the place of one that drops
everything, so nothing is asked of it. -/
theorem exists_prepared {c : Command} (hcode : h.CodeTells j) (hstdout : c.stdout ≠ j)
    (hextra : ∀ x ∈ SettingTree.flattenAll c.extra, x.Beside h j) (flags : Flags) (p : Program) :
    ∃ s, Session.new (c.settings flags p) h = .ok () s ∧ s.Prepared j h := by
  have hrest : ∀ x ∈ c.switches flags ++ SettingTree.flattenAll c.extra, x.Beside h j := by
    intro x hx
    rcases List.mem_append.mp hx with hx | hx
    · exact c.switches_beside flags h j x hx
    · exact hextra x hx
  obtain ⟨s₁, hload, hs₁⟩ := (prepared_fresh hcode).apply (show Setting.Beside h j (.program p) from
    trivial)
  have houtlet : s₁.outlet = [.discard] := by cases hload; rfl
  obtain ⟨s₂, houtput, hs₂⟩ := hs₁.setOutput hstdout fun w hw k q hk => by
    rw [houtlet, List.mem_singleton] at hw
    rw [hw] at hk; cases hk
  obtain ⟨s₃, happly, hs₃⟩ := hs₂.applyEach hrest
  refine ⟨s₃, ?_, hs₃⟩
  rw [new_eq, c.flattenAll_settings]
  exact (Act.bind_ok hload).trans ((Act.bind_ok houtput).trans happly)

end Session

end WordStack
