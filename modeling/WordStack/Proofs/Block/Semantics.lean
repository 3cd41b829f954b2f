import WordStack.Proofs.Block.Simulation
import WordStack.Proofs.Session.Steady

/-!
# Runs of block code

A run of the flat code of a block, from the first position, on a session with reliable output and
with nobody to call it off, comes to what the evaluation of the block comes to.

* `run_flatten`: it returns if and only if the evaluation ends, with the same error, stack, printed
  text and count of mismatches; it goes on for ever if and only if the evaluation does.
-/
namespace WordStack

namespace Block

/-- The evaluation ends. -/
def Ends (b : Block) (strict : Bool) (s : Store) (error : Option Error) (t : Store) : Prop :=
  ∃ fuel, b.eval strict fuel s = .ended error t

/-- The evaluation goes on for ever. -/
def Diverges (b : Block) (strict : Bool) (s : Store) : Prop :=
  ∀ fuel, b.eval strict fuel s = .unfinished

end Block

namespace Session

/-- The session `s` has come to `s'` with the stack and the mismatches of a store, and every sink
that it feeds has received what waited before, the listing if there is one, and the text of the
store. -/
structure Leaves (s : Session) (t : Store) (s' : Session) : Prop where
  stack : s'.machine.stack = t.stack
  mismatches : s'.machine.mismatches = t.mismatches
  printed : ∀ w i, s.Feeds w i → s'.host.received i =
    s.host.received i ++ w.held s.host ++ (s.heading ++ t.written)

/-- A run that nobody calls off returns. -/
def Returns (s : Session) (error : Option Error) (t : Store) : Prop :=
  ∃ fuel s', s.run .never fuel = (.ended error, s') ∧ s.Leaves t s'

/-- A run that nobody calls off goes on for ever. -/
def Endless (s : Session) : Prop := ∀ fuel, (s.run .never fuel).1 = .unfinished

variable {s s' : Session} {x : Execution} {t : Store} {e : Option Error}

theorem Settles.leaves (h : s.Settles x (s.heading ++ x.written) s')
    (hout : outcomeOf s.program x = .ended e) (hstop : x.stop = e.map .halt) :
    s.Leaves x.store s' := by
  refine ⟨by rw [h.machine]; rfl, by rw [h.machine]; rfl, ?_⟩
  intro w i hw
  have hempty : w.held s'.host = [] := by
    refine h.flushed e hout ?_ w (by rw [h.tells.outlet]; exact hw.outlet.mem)
    intro f hf
    rw [hstop] at hf
    cases e <;> cases hf
  have := h.tells.given w i hw
  rwa [hempty, List.append_nil] at this

end Session

section
variable {b : Block} {s : Session} (hp : Program.resolve b.flatten = .ok s.program)
  (hnext : s.machine.next = 0)

include hp hnext

/-- An evaluation that ends is an execution that does. -/
theorem execution_of_ends {e : Option Error} {t : Store}
    (h : b.Ends s.strict (s.machine.store []) e t) :
    ∃ fuel, (s.execution .never 0 fuel).store = t ∧
      (s.execution .never 0 fuel).stop = e.map .halt ∧
      (e = none → (s.execution .never 0 fuel).machine.next = s.program.size) := by
  obtain ⟨fuel, h⟩ := h
  have hx : Execution.At { machine := s.machine } (s.machine.store []) 0 := ⟨rfl, rfl, hnext⟩
  obtain ⟨n, hstore, hstop, hpos⟩ := arrives_of_eval hp b (placed_self b) hx h
  refine ⟨n, hstore, hstop, ?_⟩
  intro he
  have hend := hpos he
  rw [Nat.zero_add] at hend
  rw [Program.size_of_resolve hp]; exact hend

/-- An execution that ends is an evaluation that does. -/
theorem ends_of_execution {fuel : Nat} {e : Option Error}
    (h : Session.outcomeOf s.program (s.execution .never 0 fuel) = .ended e) :
    b.Ends s.strict (s.machine.store []) e (s.execution .never 0 fuel).store ∧
      (s.execution .never 0 fuel).stop = e.map .halt ∧
      (e = none → (s.execution .never 0 fuel).machine.next = s.program.size) := by
  have hx : Execution.At { machine := s.machine } (s.machine.store []) 0 := ⟨rfl, rfl, hnext⟩
  have hover := Session.isOver_of_outcomeOf h
  obtain ⟨f, e', t, heval⟩ := exists_ended hp b (placed_self b) hx hover
  obtain ⟨n, hstore, hstop, hpos⟩ := execution_of_ends hp hnext ⟨f, heval⟩
  have hout := Session.outcomeOf_of_stop hstop hpos
  -- both are over, so they are one execution
  have hsame : s.execution .never 0 n = s.execution .never 0 fuel :=
    Execution.ahead_eq_of_isOver (Session.isOver_of_outcomeOf hout) hover
  rw [hsame] at hstore hstop hpos hout
  obtain rfl : e' = e := by rw [h] at hout; exact (Outcome.ended.inj hout).symm
  exact ⟨⟨f, by rw [heval, hstore]⟩, hstop, hpos⟩

variable (hs : s.Steady)

include hs

theorem returns_of_ends {e : Option Error} {t : Store}
    (h : b.Ends s.strict (s.machine.store []) e t) : s.Returns e t := by
  obtain ⟨fuel, rfl, hstop, hpos⟩ := execution_of_ends hp hnext h
  obtain ⟨s', hrun, hsettles⟩ := Session.run_of_steady hs .never fuel
  have hout := Session.outcomeOf_of_stop hstop hpos
  exact ⟨fuel, s', by rw [hrun, hout], hsettles.leaves hout hstop⟩

theorem ends_of_run {fuel : Nat} {e : Option Error} {s' : Session}
    (h : s.run .never fuel = (.ended e, s')) :
    ∃ t, b.Ends s.strict (s.machine.store []) e t ∧ s.Leaves t s' ∧
      (e = none → s'.machine.next = s.program.size) := by
  obtain ⟨s'', hrun, hsettles⟩ := Session.run_of_steady hs .never fuel
  rw [h] at hrun
  obtain ⟨hout, rfl⟩ := Prod.mk.inj hrun
  obtain ⟨hends, hstop, hpos⟩ := ends_of_execution hp hnext hout.symm
  refine ⟨_, hends, hsettles.leaves hout.symm hstop, ?_⟩
  intro he
  rw [hsettles.machine]; exact hpos he

end

/-- **Block code runs as its block evaluates.** -/
theorem run_flatten (b : Block) :
    (∃ p, Program.resolve b.flatten = .ok p ∧ p.code.toList = b.flatten) ∧
    ∀ s : Session, Program.resolve b.flatten = .ok s.program → s.machine.next = 0 → s.Steady →
      (∀ error t, b.Ends s.strict (s.machine.store []) error t → s.Returns error t) ∧
      (∀ fuel error s', s.run .never fuel = (.ended error, s') →
        ∃ t, b.Ends s.strict (s.machine.store []) error t ∧ s.Leaves t s' ∧
          (error = none → s'.machine.next = s.program.size)) ∧
      (∀ w i, s.Feeds w i → ∀ error t,
        s.Returns error t ↔ b.Ends s.strict (s.machine.store []) error t) ∧
      (s.Endless ↔ b.Diverges s.strict (s.machine.store [])) := by
  refine ⟨resolve_flatten b, fun s hp hnext hs => ⟨?_, ?_, ?_, ?_⟩⟩
  · intro error t h
    exact returns_of_ends hp hnext hs h
  · intro fuel error s' h
    exact ends_of_run hp hnext hs h
  · intro w i hw error t
    refine ⟨fun ⟨fuel, s', hrun, hleaves⟩ => ?_, returns_of_ends hp hnext hs⟩
    obtain ⟨t', hends, hleaves', -⟩ := ends_of_run hp hnext hs hrun
    -- the sink has received both texts
    have htext := (hleaves.printed w i hw).symm.trans (hleaves'.printed w i hw)
    obtain rfl : t = t' := by
      obtain ⟨stack, written, mismatches⟩ := t
      obtain ⟨stack', written', mismatches'⟩ := t'
      obtain rfl := hleaves.stack.symm.trans hleaves'.stack
      obtain rfl := hleaves.mismatches.symm.trans hleaves'.mismatches
      obtain rfl : written = written' := by simpa using htext
      rfl
    exact hends
  · constructor
    · intro hrun fuel
      cases heval : b.eval s.strict fuel (s.machine.store []) with
      | unfinished => rfl
      | ended e t =>
        obtain ⟨n, s', hend, -⟩ := returns_of_ends hp hnext hs ⟨fuel, heval⟩
        have := hrun n
        rw [hend] at this; cases this
    · intro heval fuel
      match hrun : s.run .never fuel with
      | (.unfinished, s') => rfl
      | (.ended e, s') =>
        obtain ⟨t, ⟨n, hend⟩, -⟩ := ends_of_run hp hnext hs hrun
        rw [heval n] at hend; cases hend

theorem run_countdown : ∃ s : Session, Program.resolve Block.countdown.flatten = .ok s.program ∧
    s.machine.next = 0 ∧ s.Steady ∧ s.Feeds (.direct 0) 0 ∧
    s.Returns none { stack := [.int 0], written := bytes "2\n1\n" } := by
  obtain ⟨⟨p, hp, -⟩, hrun⟩ := run_flatten Block.countdown
  have hs := Session.steady_inMemory p [.int 2]
  obtain ⟨hreturns, -, -, -⟩ := hrun (Session.inMemory p [.int 2]) hp rfl hs
  exact ⟨_, hp, rfl, hs, Session.feeds_inMemory p _, hreturns none _ ⟨3, rfl⟩⟩

end WordStack
