import Mathlib.Data.Nat.Find
import WordStack.Proofs.Session.Steady

/-!
# How far a run has come

A run with fuel for `n` instructions is the beginning of every run with more fuel, so a run is
followed by looking at all of its beginnings: it ends with its `n`-th instruction if `n` is the
least fuel with which it ends, and where it is after `m` of them is what the run with fuel `m` comes
to.

* `Session.EndsAt`: a run ends with its `n`-th instruction.
* `Session.printed`: all text for a sink, be it received or still waiting in a buffer.
* `Session.Settles.printed`, `Session.endsAt_of_execution`, `Session.exists_endsAt`: what a run has
  printed, and where it ends, by its execution.
-/
namespace WordStack.Session

/-- A run ends with its `n`-th instruction. -/
structure EndsAt (s : Session) (context : Context) (n : Nat) (error : Option Error)
    (s' : Session) : Prop where
  run : s.run context n = (.ended error, s')
  before : ∀ m < n, (s.run context m).1 = .unfinished

/-- The text for a sink that has gone through a writer: what the sink has received, and what waits
in front of it. -/
def printed (s : Session) (w : Writer) (i : Nat) : Bytes := s.host.received i ++ w.held s.host

variable {s s' : Session} {x : Execution} {text : Bytes} {w : Writer} {i : Nat}
  {context : Context} {error : Option Error} {n : Nat}

theorem run_eq_of_fst {outcome : Outcome} (h : (s.run context n).1 = outcome) :
    s.run context n = (outcome, (s.run context n).2) := by rw [← h]

theorem printed_of_flushed (h : s.Flushed) (hw : w ∈ s.outlet) :
    s.printed w i = s.host.received i := by
  rw [printed, h w hw, List.append_nil]

theorem Tells.printed (h : Tells text s s') (hw : s.Feeds w i) :
    s'.printed w i = s.printed w i ++ text := h.given w i hw

theorem Settles.printed (h : s.Settles x text s') (hw : s.Feeds w i) :
    s'.printed w i = s.printed w i ++ text := h.tells.printed hw

theorem outcomeOf_eq_unfinished {p : Program} :
    outcomeOf p x = .unfinished ↔ x.isOver p = false := by
  rw [Execution.isOver_eq_false]
  unfold outcomeOf
  split <;> simp_all

/-- An execution that is over gives a run that has ended. -/
theorem exists_outcomeOf {p : Program} (h : x.isOver p = true) :
    ∃ error, outcomeOf p x = .ended error := by
  cases hout : outcomeOf p x with
  | ended error => exact ⟨error, rfl⟩
  | unfinished => rw [outcomeOf_eq_unfinished.mp hout] at h; cases h

section
variable (hs : s.Steady)

include hs

theorem run_fst_of_steady (context : Context) (n : Nat) :
    (s.run context n).1 = outcomeOf s.program (s.execution context 0 n) := by
  obtain ⟨s', hrun, -⟩ := run_of_steady hs context n
  rw [hrun]

theorem run_snd_of_steady (context : Context) (n : Nat) : s.Settles (s.execution context 0 n)
    (s.heading ++ (s.execution context 0 n).written) (s.run context n).2 := by
  obtain ⟨s', hrun, hsettles⟩ := run_of_steady hs context n
  rw [hrun]; exact hsettles

theorem settles_of_run {outcome : Outcome} (h : s.run context n = (outcome, s')) :
    outcome = outcomeOf s.program (s.execution context 0 n) ∧
      s.Settles (s.execution context 0 n) (s.heading ++ (s.execution context 0 n).written) s' := by
  have hfst := run_fst_of_steady hs context n
  have hsnd := run_snd_of_steady hs context n
  rw [h] at hfst hsnd
  exact ⟨hfst, hsnd⟩

/-- A run that has not ended with less fuel was not over before. -/
theorem EndsAt.isOver_eq_false (h : s.EndsAt context n error s') {m : Nat} (hm : m < n) :
    (s.execution context 0 m).isOver s.program = false := by
  have := h.before m hm
  rwa [run_fst_of_steady hs, outcomeOf_eq_unfinished] at this

/-- A run ends with the instruction with which its execution is over. -/
theorem endsAt_of_execution (hend : outcomeOf s.program (s.execution context 0 n) = .ended error)
    (hbefore : ∀ m < n, (s.execution context 0 m).isOver s.program = false) :
    s.EndsAt context n error (s.run context n).2 := by
  refine ⟨run_eq_of_fst ?_, fun m hm => ?_⟩
  · rw [run_fst_of_steady hs, hend]
  · rw [run_fst_of_steady hs, outcomeOf_eq_unfinished]; exact hbefore m hm

/-- An execution that is over after `n` instructions ends a run with one of these. -/
theorem exists_endsAt (h : (s.execution context 0 n).isOver s.program = true) :
    ∃ m error s', m ≤ n ∧ s.EndsAt context m error s' := by
  have hex : ∃ m, (s.execution context 0 m).isOver s.program = true := ⟨n, h⟩
  obtain ⟨error, hout⟩ := exists_outcomeOf (Nat.find_spec hex)
  refine ⟨Nat.find hex, error, _, Nat.find_min' hex h, endsAt_of_execution hs hout ?_⟩
  intro m hm
  exact Bool.eq_false_iff.mpr (Nat.find_min hex hm)

end

end WordStack.Session
