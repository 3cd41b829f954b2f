import WordStack.Proofs.Block.Semantics
import WordStack.Proofs.Machine.Relocation
import WordStack.Proofs.Session.Interruption

/-!
# Runs of the same instructions at other positions

A run that nobody calls off is what its execution comes to, so two runs are compared by comparing
their executions.

* `Session.run_of_outcome`, `Session.outcome_of_run`: from an execution that is over to a run that
  returns, and back.
* `Session.outcomeOf_relocated`: executions that have come to the same at other positions return
  alike.
* `Session.Alike`: what two such runs have in common when they have returned.
-/
namespace WordStack

namespace Session

/-- The session `t` starts as `s` does, at a position moved by `f`, with a program and an outlet of
its own. -/
structure StartsAs (f : Int → Int) (s t : Session) : Prop where
  strict : t.strict = s.strict
  stack : t.machine.stack = s.machine.stack
  mismatches : t.machine.mismatches = s.machine.mismatches
  next : t.machine.next = f s.machine.next

/-- Runs of `s` and `t` have come to `s'` and `t'` with the same stack, mismatches and printed text,
at positions that `f` relates. -/
structure Alike (f : Int → Int) (s s' t t' : Session) : Prop where
  leaves : ∃ store, s.Leaves store s' ∧ t.Leaves store t'
  next : t'.machine.next = f s'.machine.next

variable {s s' t : Session} {p q : Program} {f : Int → Int} {x y : Execution} {n : Nat}
  {error : Option Error}

/-- Sessions that start alike have executions that do. -/
theorem StartsAs.relocated (h : s.StartsAs f t) :
    Execution.Relocated f { machine := s.machine } { machine := t.machine } := by
  refine ⟨?_, h.next, rfl⟩
  simp [Execution.store, h.stack, h.mismatches]

theorem not_fault_of_relocated (h : x.Relocated f y) (hfault : ∀ g, x.stop ≠ some (.fault g)) :
    ∀ g, y.stop ≠ some (.fault g) := by
  intro g hg
  rw [h.stop] at hg
  obtain ⟨stop, hstop, heq⟩ := Option.map_eq_some_iff.mp hg
  cases stop with
  | halt reason => cases heq
  | fault g' => exact hfault g' hstop

theorem outcomeOf_relocated (h : x.Relocated f y) (hover : y.isOver q = true)
    (hout : outcomeOf p x = .ended error) (hfault : ∀ g, x.stop ≠ some (.fault g)) :
    outcomeOf q y = .ended (error.map (Error.relocate f)) := by
  obtain ⟨hstop, -⟩ := stop_of_outcomeOf hout hfault
  have hstop' := h.stop
  rw [hstop] at hstop'
  cases error with
  | none =>
    have hlt : ¬ y.machine.next < q.size := by
      simpa [Execution.isOver, hstop'] using hover
    simp [outcomeOf, hstop', hlt]
  | some reason => simp [outcomeOf, hstop', Stop.relocate]

section
variable (hs : s.Steady) (hfault : ∀ g, (s.execution .never 0 n).stop ≠ some (.fault g))

include hs hfault

theorem outcome_of_run (hrun : s.run .never n = (.ended error, s')) :
    outcomeOf s.program (s.execution .never 0 n) = .ended error ∧
      s.Leaves (s.execution .never 0 n).store s' ∧
      s'.machine = (s.execution .never 0 n).machine := by
  obtain ⟨hout, hsettles⟩ := settles_of_run hs hrun
  obtain ⟨hstop, -⟩ := stop_of_outcomeOf hout.symm hfault
  exact ⟨hout.symm, hsettles.leaves hout.symm hstop, hsettles.machine⟩

theorem run_of_outcome (hout : outcomeOf s.program (s.execution .never 0 n) = .ended error) :
    ∃ s', s.run .never n = (.ended error, s') ∧ s.Leaves (s.execution .never 0 n).store s' ∧
      s'.machine = (s.execution .never 0 n).machine := by
  have hrun : s.run .never n = (.ended error, (s.run .never n).2) :=
    run_eq_of_fst (by rw [run_fst_of_steady hs, hout])
  exact ⟨_, hrun, (outcome_of_run hs hfault hrun).2⟩

end

end Session

end WordStack
