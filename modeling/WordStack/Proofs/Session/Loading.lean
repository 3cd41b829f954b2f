import WordStack.Proofs.Session.Progress
import WordStack.Session.Setting

/-!
# Loaded runs forget

Loading a program sets the whole machine anew. What a run of it comes to depends on the program, the
context, strictness and the listing, and on nothing else that a session has been through: not on the
stack, the positions and the count that were there, not on the width of marks, and not on whether
there is a logger and how it is indented. Nothing is asked of the program: its table of targets may
send a run anywhere.

* `Session.RunsLoaded`: loading a program and running it gives this outcome, machine and text.
* `Session.runsLoaded_of_steady`: which these are can be told without the session.
* `run_loaded_congr`: so two sessions cannot be told apart by them.
-/
namespace WordStack

namespace Session

/-- Loading a program and running it has this outcome, leaves this machine, and writes this text to
every sink that the session feeds without a buffer. -/
def RunsLoaded (s : Session) (p : Program) (c : Context) (fuel : Nat) (outcome : Outcome)
    (machine : Machine) (text : Bytes) : Prop :=
  ∃ t t', load p s = .ok () t ∧ t.run c fuel = (outcome, t') ∧ t'.machine = machine ∧
    ∀ w i, s.Feeds w i → (∀ b, w ≠ .buffered b) → t'.host.received i = s.host.received i ++ text

variable {s : Session}

/-- The session with a program loaded. -/
def loaded (s : Session) (p : Program) : Session := { s with program := p, machine := {} }

theorem load_eq (p : Program) (s : Session) : load p s = .ok () (s.loaded p) := rfl

theorem Steady.loaded (hs : s.Steady) (p : Program) : (s.loaded p).Steady :=
  ⟨hs.outlet, hs.writers, hs.logger⟩

theorem printed_of_unbuffered {w : Writer} (hw : ∀ b, w ≠ .buffered b) (s : Session) (i : Nat) :
    s.printed w i = s.host.received i := by
  cases w with
  | buffered b => exact absurd rfl (hw b)
  | _ => exact List.append_nil _

/-- A session with a program and the settings that matter to a run, and nothing else. -/
def plain (p : Program) (strict : Bool) (listing : Option Bool) : Session :=
  { program := p, strict, listing }

/-- All that a session brings along is its strictness and its listing. -/
theorem runsLoaded_of_steady (hs : s.Steady) (p : Program) (c : Context) (fuel : Nat) :
    s.RunsLoaded p c fuel (outcomeOf p ((plain p s.strict s.listing).execution c 0 fuel))
      ((plain p s.strict s.listing).execution c 0 fuel).machine
      ((plain p s.strict s.listing).heading ++
        ((plain p s.strict s.listing).execution c 0 fuel).written) := by
  obtain ⟨t', hrun, hsettles⟩ := run_of_steady (hs.loaded p) c fuel
  refine ⟨s.loaded p, t', load_eq p s, hrun, hsettles.machine, fun w i hw hdirect => ?_⟩
  have hprinted := hsettles.printed (w := w) (i := i) ⟨hw.outlet, hw.logger⟩
  rw [printed_of_unbuffered hdirect, printed_of_unbuffered hdirect] at hprinted
  exact hprinted

end Session

/-- **A loaded run depends on nothing but what it is given.** Take two sessions, whatever they have
been through, whose outputs never fail and whose loggers, if they have any, never crash. If strictness
and listing are the same, then loading a program and running it has the same outcome in both, leaves
the same machine, and writes the same bytes. -/
theorem run_loaded_congr {s₁ s₂ : Session} (hs₁ : s₁.Steady) (hs₂ : s₂.Steady)
    (hstrict : s₁.strict = s₂.strict) (hlisting : s₁.listing = s₂.listing) (p : Program)
    {c₁ c₂ : Context} (hc : ∀ asked, c₁ asked = c₂ asked) (fuel : Nat) :
    ∃ outcome machine text, s₁.RunsLoaded p c₁ fuel outcome machine text ∧
      s₂.RunsLoaded p c₂ fuel outcome machine text := by
  obtain rfl : c₁ = c₂ := funext hc
  refine ⟨_, _, _, Session.runsLoaded_of_steady hs₁ p c₁ fuel, ?_⟩
  rw [hlisting, hstrict]
  exact Session.runsLoaded_of_steady hs₂ p c₁ fuel

/-- The program of `7 print wend` with a target in front of the code. -/
def Program.astray : Program :=
  { code := #[.push 7, { op := .print }, { op := .wend }], targets := #[none, none, some (-5)] }

/-- A session with a logger that puts a text in front of every line. -/
def Session.traced (p : Program) (stack : List Value) : Session :=
  { Session.inMemory p stack with logger := .indented (bytes "again: ") (.recorder 0) }

theorem Session.steady_traced (p : Program) (stack : List Value) :
    (Session.traced p stack).Steady := by
  obtain ⟨houtlet, hwriters, -⟩ := Session.steady_inMemory p stack
  refine ⟨houtlet, hwriters, fun _ crash hcrash => ?_⟩
  cases hcrash

theorem Session.Steady.run {s : Session} (hs : s.Steady) (c : Context) (fuel : Nat) :
    (s.run c fuel).2.Steady :=
  (Session.run_snd_of_steady hs c fuel).tells.steady hs

/-- A session whose run of `/` failed at a zero divisor, with a text left on the stack. -/
def Session.failed : Session :=
  ((Session.traced ⟨#[{ op := .div }], #[none]⟩ [.int 0, .int 1, .text []]).run .never 1).2

theorem run_loaded_congr_astray : ∃ s₁ s₂ : Session,
    s₁.machine.stack ≠ s₂.machine.stack ∧ s₁.markWidth ≠ s₂.markWidth ∧ s₁.logger ≠ s₂.logger ∧
    ∃ machine text, s₁.RunsLoaded .astray .never 5
        (.ended (some (.crashedBy Session.name (.fault (.index (-5) 3))))) machine text ∧
      s₂.RunsLoaded .astray .never 5
        (.ended (some (.crashedBy Session.name (.fault (.index (-5) 3))))) machine text := by
  have hs₁ : Session.failed.Steady := (Session.steady_traced _ _).run _ _
  have hs₂ := Session.steady_inMemory {} []
  have hstrict : Session.failed.strict = (Session.inMemory {} []).strict := by decide +kernel
  have hlisting : Session.failed.listing = (Session.inMemory {} []).listing := by decide +kernel
  have hc : ∀ asked, Context.never asked = Context.never asked := fun _ => rfl
  obtain ⟨outcome, machine, text, h₁, h₂⟩ :=
    run_loaded_congr hs₁ hs₂ hstrict hlisting .astray hc 5
  obtain rfl : outcome = .ended (some (.crashedBy Session.name (.fault (.index (-5) 3)))) := by
    obtain ⟨t, t', hload, hrun, -⟩ := h₂
    cases hload
    have hout : (((Session.inMemory {} []).loaded .astray).run .never 5).1 = outcome :=
      congrArg Prod.fst hrun
    rw [← hout]
    decide +kernel
  exact ⟨_, _, by decide +kernel, by decide +kernel, by decide +kernel, _, _, h₁, h₂⟩

end WordStack
