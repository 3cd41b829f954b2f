import WordStack.Proofs.Session.Stepwise

/-!
# What every effect keeps, a run keeps

A run changes a session by few effects: it sets the machine, logs a line, writes a text, flushes the
outlet, and indents the logger for a while. A property that each of these keeps, whether it returns
or not, is kept by every run, however that ends.

* `Act.Upholds`: a computation keeps a property of the state.
* `Session.Upheld`: the effects of a run keep a property of sessions.
* `Session.Upheld.play`, `Session.Upheld.execute`, `Session.Upheld.run`: so do instructions and runs.
-/
namespace WordStack

namespace Act

variable {σ α β : Type} {I : σ → Prop} {act : Act σ α} {k : α → Act σ β}

/-- Whether it returns or not, the computation leaves a state with the property if it was started in
one. -/
def Upholds (I : σ → Prop) (act : Act σ α) : Prop := ∀ s, I s → I (stateOf (act s))

theorem Upholds.bind (hact : Upholds I act) (hk : ∀ a, Upholds I (k a)) : Upholds I (act >>= k) := by
  intro s hs
  have hs' := hact s hs
  cases h : act s with
  | ok a s' =>
    rw [h] at hs'
    rw [bind_ok h]
    exact hk a s' hs'
  | error e s' =>
    rw [h] at hs'
    rwa [bind_error h]

theorem Upholds.shield {act : Act σ Unit} (hact : Upholds I act) : Upholds I (Act.shield act) := by
  intro s hs
  have hs' := hact s hs
  unfold Act.shield
  split
  · next h => rwa [h] at hs'
  · exact hs'

end Act

namespace Session

open Act (stateOf Upholds)

/-- Every effect of a run keeps the property. -/
structure Upheld (I : Session → Prop) : Prop where
  machine : ∀ {s : Session} (m : Machine), I s → I { s with machine := m }
  log : ∀ {s : Session} (mark text : Bytes), I s → I (stateOf (Session.log mark text s))
  write : ∀ {s : Session} (text : Bytes), I s →
    I { s with host := stateOf (s.outlet.writeText text s.host) }
  flush : ∀ {s : Session}, I s → I { s with host := stateOf (s.outlet.flush s.host) }
  indented : ∀ {s : Session} (text : Bytes), I s →
    I { s with logger := .indented text s.logger }
  logger : ∀ {s s' : Session}, I s → I s' → I { s' with logger := s.logger }

theorem stateOf_onHost {α : Type} (act : Act Host α) (s : Session) :
    stateOf (onHost act s) = { s with host := stateOf (act s.host) } := by
  unfold onHost Act.zoom
  cases act s.host <;> rfl

namespace Upheld

variable {I : Session → Prop} (hI : Upheld I)

include hI

/-! ## Effects -/

theorem note (n : Note) : Upholds I (note n) := by
  intro s hs
  unfold Session.note
  rw [Act.get_bind]
  split
  · exact hI.log _ _ hs
  · exact hs

theorem settle (reason : Option Error) : Upholds I (settle reason) := by
  intro s hs
  have hflush := hI.flush hs
  rw [← stateOf_onHost] at hflush
  unfold Session.settle
  split
  · exact hs
  · split
    · next h => rwa [h] at hflush
    · next h => rwa [h] at hflush
    · next h => rwa [h] at hflush

theorem halt {α : Type} (reason : Option Error) : Upholds I (halt reason : M α) := by
  have hlog : ∀ text, Upholds I (Act.shield (Session.log (bytes "#") text)) := fun text =>
    Upholds.shield fun _ => hI.log _ text
  refine (hI.settle reason).bind fun e => ?_
  cases e with
  | none => exact (hlog _).bind fun _ _ hs => hs
  | some e => exact (hlog _).bind fun _ _ hs => hs

theorem haltIf (reason : Option Error) : Upholds I (haltIf reason) := by
  cases reason with
  | none => exact fun _ hs => hs
  | some e => exact hI.halt (some e)

theorem writeText (text : Bytes) : Upholds I (writeText text) := by
  intro s hs
  have hwrite : I (stateOf (onHost (s.outlet.writeText text) s)) := by
    rw [stateOf_onHost]; exact hI.write text hs
  unfold Session.writeText
  rw [Act.get_bind]
  cases h : onHost (s.outlet.writeText text) s with
  | ok w s' =>
    rw [h] at hwrite
    rw [Act.bind_ok h]
    exact hI.haltIf w.error s' hwrite
  | error e s' =>
    rw [h] at hwrite
    rwa [Act.bind_error h]

/-! ## Instructions -/

theorem play (script : Script) : Upholds I (play script) := by
  have hset : ∀ m, Upholds I (setMachine m) := fun m _ hs => hI.machine m hs
  induction script with
  | done m => exact hset m
  | halt reason m => exact (hset m).bind fun _ => hI.halt (some reason)
  | fault f m => exact (hset m).bind fun _ _ hs => hs
  | note n m rest ih => exact (hset m).bind fun _ => (hI.note n).bind fun _ => ih
  | write text m rest ih => exact (hset m).bind fun _ => (hI.writeText text).bind fun _ => ih

theorem step : Upholds I step := fun s hs => hI.play _ s hs

theorem execute (context : Context) (fuel asked : Nat) : Upholds I (execute context fuel asked) := by
  induction fuel generalizing asked with
  | zero => exact fun _ hs => hs
  | succ fuel ih =>
    intro s hs
    rw [execute_succ]
    split
    · exact ((hI.step.bind fun _ => hI.haltIf (context asked)).bind fun _ => ih (asked + 1)) s hs
    · exact hs

theorem indent {α : Type} {act : M α} (hact : Upholds I act) : Upholds I (Session.indented act) := by
  intro s hs
  unfold Session.indented
  split
  · have hs' := hact _ (hI.indented (bytes "\t") hs)
    split
    · next h => rw [h] at hs'; exact hI.logger hs hs'
    · next h => rw [h] at hs'; exact hI.logger hs hs'
  · exact hact s hs

/-! ## Runs -/

theorem start : Upholds I start := by
  intro s hs
  unfold Session.start
  rw [Act.get_bind]
  cases s.listing with
  | none => exact hI.log _ _ hs
  | some coloured => exact (hI.writeText _).bind (fun _ _ hs => hI.log _ _ hs) s hs

theorem finish : Upholds I finish := by
  intro s hs
  have hlog := hI.log (bytes "#") (bytes "done, stack:" ++ Note.showStack s.machine.stack) hs
  unfold Session.finish
  rw [Act.get_bind]
  cases h : Session.log (bytes "#") (bytes "done, stack:" ++ Note.showStack s.machine.stack) s with
  | ok _ s' =>
    rw [h] at hlog
    have houtlet : s'.outlet = s.outlet := by
      have hbeside := (log_beside _ _).ok h
      rw [hbeside]
    rw [Act.bind_ok h, stateOf_onHost, ← houtlet]
    exact hI.flush hlog
  | error e s' =>
    rw [h] at hlog
    rwa [Act.bind_error h]

theorem proceed (context : Context) (fuel asked : Nat) : Upholds I (proceed context fuel asked) := by
  refine (hI.indent (hI.execute context fuel asked)).bind fun stopped => ?_
  cases stopped with
  | true => exact hI.finish.bind fun _ _ hs => hs
  | false => exact fun _ hs => hs

/-- However a run ends, it keeps what every effect keeps. -/
theorem run {s : Session} (hs : I s) (context : Context) (fuel : Nat) : I (s.run context fuel).2 := by
  rw [Session.run, contained_snd]
  exact (hI.start.bind fun _ => hI.proceed context fuel 0) s hs

end Upheld

end Session

end WordStack
