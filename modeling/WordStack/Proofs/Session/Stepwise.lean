import Mathlib.Order.Defs.Unbundled
import WordStack.Proofs.Session.Steady

/-!
# Runs one instruction at a time, in any surroundings

What is said here holds of every session, whatever its sinks do to a write and its logger to a line:
a computation may return, halt or crash, and in each case leaves a session behind.

* `Act.Relates`: how the state that a computation leaves is related to the one it was started in.
* `Session.Beside`, `Session.Within`: what effects, and what instructions, leave as it is.
* `Script.Visits`: all machines on the way through a script. `play_visits`: a session that carries a
  script out is left with one of them.
* `execute_add`, `run_of_unfinished`, `run_of_ended`: the fuel of a run can be given in parts.
* `run_succ_visits`: where a run is after one instruction more.
-/
namespace WordStack

namespace Act

variable {σ α β : Type} {R : σ → σ → Prop} {act : Act σ α} {k : α → Act σ β}

/-- The state that a computation left, whether it returned or not. -/
def stateOf : EStateM.Result Abort σ α → σ
  | .ok _ s | .error _ s => s

/-- Whether it returns or not, the computation leaves a state that is related to the one before. -/
def Relates (R : σ → σ → Prop) (act : Act σ α) : Prop := ∀ s, R s (stateOf (act s))

theorem Relates.ok {s s' : σ} {a : α} (hact : Relates R act) (h : act s = .ok a s') : R s s' := by
  have hs := hact s
  rwa [h] at hs

theorem Relates.error {s s' : σ} {e : Abort} (hact : Relates R act) (h : act s = .error e s') :
    R s s' := by
  have hs := hact s
  rwa [h] at hs

theorem Relates.bind (hact : Relates R act) (hk : ∀ a, Relates R (k a))
    [IsTrans σ R] : Relates R (act >>= k) := by
  intro s
  cases h : act s with
  | ok a s' =>
    rw [bind_ok h]
    exact Trans.trans (hact.ok h) (hk a s')
  | error e s' =>
    rw [bind_error h]
    exact hact.error h

theorem bind_congr {act' : Act σ α} {s t : σ} (h : act s = act' t) :
    (act >>= k) s = (act' >>= k) t := by
  cases ht : act' t with
  | ok a t' => rw [bind_ok ht, bind_ok (h.trans ht)]
  | error e t' => rw [bind_error ht, bind_error (h.trans ht)]

end Act

/-- Every machine on the way through a script satisfies `P`. -/
def Script.Visits (P : Machine → Prop) : Script → Prop
  | .done m | .halt _ m | .fault _ m => P m
  | .note _ m rest | .write _ m rest => P m ∧ rest.Visits P

namespace Session

open Act (stateOf Relates)

/-- The session `s'` differs from `s` in the width of marks and the host only. -/
def Beside (s s' : Session) : Prop := s' = { s with markWidth := s'.markWidth, host := s'.host }

/-- The session `s'` differs from `s` in the machine, the width of marks and the host only. -/
def Within (s s' : Session) : Prop :=
  s' = { s with machine := s'.machine, markWidth := s'.markWidth, host := s'.host }

variable {s s' s'' : Session}

theorem Beside.trans (h : s.Beside s') (h' : s'.Beside s'') : s.Beside s'' := by
  rw [Beside, h', h]

instance : IsTrans Session Beside := ⟨fun _ _ _ => Beside.trans⟩

theorem Beside.machine (h : s.Beside s') : s'.machine = s.machine := by rw [h]

theorem Beside.within (h : s.Beside s') : s.Within s' := by rw [Within, h]

theorem Within.trans (h : s.Within s') (h' : s'.Within s'') : s.Within s'' := by
  rw [Within, h', h]

instance : IsTrans Session Within := ⟨fun _ _ _ => Within.trans⟩

theorem Within.program (h : s.Within s') : s'.program = s.program := by rw [h]

theorem Within.strict (h : s.Within s') : s'.strict = s.strict := by rw [h]

theorem Within.logger (h : s.Within s') : s'.logger = s.logger := by rw [h]

/-! ## Effects -/

theorem onHost_beside {α : Type} (act : Act Host α) : Relates Beside (onHost act) := by
  intro s
  unfold onHost Act.zoom
  cases act s.host <;> rfl

theorem log_beside (mark text : Bytes) : Relates Beside (log mark text) := by
  intro s
  rw [log_eq]
  split
  · exact onHost_beside _ { s with markWidth := max s.markWidth mark.length }
  · rfl

theorem note_beside (n : Note) : Relates Beside (note n) := by
  intro s
  unfold note
  rw [Act.get_bind]
  split
  · exact log_beside _ _ s
  · rfl

theorem settle_beside (reason : Option Error) : Relates Beside (settle reason) := by
  intro s
  unfold settle
  split
  · rfl
  · split
    · next h => exact (onHost_beside _).ok h
    · next h => exact (onHost_beside _).error h
    · next h => exact (onHost_beside _).error h

theorem shield_beside {act : M Unit} (h : Relates Beside act) : Relates Beside (Act.shield act) := by
  intro s
  unfold Act.shield
  split
  · next hact => exact h.error hact
  · exact h s

theorem halt_beside {α : Type} (reason : Option Error) : Relates Beside (halt reason : M α) := by
  refine (settle_beside reason).bind fun e => ?_
  cases e with
  | none => exact Relates.bind (shield_beside (log_beside _ _)) fun _ _ => rfl
  | some e => exact Relates.bind (shield_beside (log_beside _ _)) fun _ _ => rfl

theorem haltIf_beside (reason : Option Error) : Relates Beside (haltIf reason) := by
  cases reason with
  | none => exact fun _ => rfl
  | some e => exact halt_beside (some e)

theorem writeText_beside (text : Bytes) : Relates Beside (writeText text) := by
  intro s
  unfold writeText
  rw [Act.get_bind]
  exact Relates.bind (onHost_beside _) (fun w : Wrote => haltIf_beside w.error) s

theorem start_beside : Relates Beside start := by
  intro s
  unfold start
  rw [Act.get_bind]
  cases s.listing with
  | none => exact log_beside _ _ s
  | some coloured =>
    exact Relates.bind (writeText_beside _) (fun _ => log_beside _ _) s

theorem finish_beside : Relates Beside finish := by
  intro s
  unfold finish
  rw [Act.get_bind]
  exact Relates.bind (log_beside _ _) (fun _ => onHost_beside _) s

/-! ## Instructions -/

/-- An effect on the way through a script, in which the machine is `m`, and the rest. -/
theorem visits_effect {P : Machine → Prop} {effect rest : M Unit} {m : Machine}
    (heffect : Relates Beside effect) (hm : P m)
    (hrest : ∀ s : Session, P (stateOf (rest s)).machine ∧ s.Within (stateOf (rest s)))
    (s : Session) :
    P (stateOf ((do setMachine m; effect; rest : M Unit) s)).machine ∧
      s.Within (stateOf ((do setMachine m; effect; rest : M Unit) s)) := by
  have hset : s.Within { s with machine := m } := rfl
  have hplay : (do setMachine m; effect; rest : M Unit) s =
      (effect >>= fun _ => rest) { s with machine := m } := rfl
  rw [hplay]
  cases h : effect { s with machine := m } with
  | ok _ s₁ =>
    rw [Act.bind_ok h]
    obtain ⟨hP, hw⟩ := hrest s₁
    exact ⟨hP, (hset.trans (heffect.ok h).within).trans hw⟩
  | error e s₁ =>
    have hs := heffect.error h
    rw [Act.bind_error h]
    refine ⟨?_, hset.trans hs.within⟩
    show P s₁.machine
    rw [hs.machine]; exact hm

/-- Whatever happens on the way, the session is left with a machine of the script. -/
theorem play_visits {P : Machine → Prop} {script : Script} (h : script.Visits P) (s : Session) :
    P (stateOf (play script s)).machine ∧ s.Within (stateOf (play script s)) := by
  induction script generalizing s with
  | done m => exact ⟨h, rfl⟩
  | halt reason m =>
    have hhalt := halt_beside (α := Unit) (some reason) { s with machine := m }
    have hset : s.Within { s with machine := m } := rfl
    have hplay : play (.halt reason m) s = halt (some reason) { s with machine := m } := rfl
    rw [hplay]
    exact ⟨by rw [hhalt.machine]; exact h, hset.trans hhalt.within⟩
  | fault f m => exact ⟨h, rfl⟩
  | note n m rest ih => exact visits_effect (note_beside n) h.1 (ih h.2) s
  | write text m rest ih => exact visits_effect (writeText_beside text) h.1 (ih h.2) s

theorem step_visits {P : Machine → Prop} (h : (s.machine.step s.program s.strict).Visits P)
    (answer : Option Error) :
    P (stateOf ((do step; haltIf answer : M Unit) s)).machine ∧
      s.Within (stateOf ((do step; haltIf answer : M Unit) s)) := by
  have hstep : step s = play (s.machine.step s.program s.strict) s := rfl
  have hplay := play_visits h s
  rw [← hstep] at hplay
  cases hs : step s with
  | ok a s₁ =>
    rw [hs] at hplay
    obtain ⟨hP, hw⟩ := hplay
    rw [Act.bind_ok hs]
    have hanswer := haltIf_beside answer s₁
    exact ⟨by rw [hanswer.machine]; exact hP, hw.trans hanswer.within⟩
  | error e s₁ =>
    rw [hs] at hplay
    rw [Act.bind_error hs]
    exact hplay

theorem visits_true (script : Script) : script.Visits fun _ => True := by
  induction script with
  | note n m rest ih => exact ⟨trivial, ih⟩
  | write text m rest ih => exact ⟨trivial, ih⟩
  | _ => exact trivial

theorem execute_within (c : Context) (fuel asked : Nat) : Relates Within (execute c fuel asked) := by
  induction fuel generalizing asked with
  | zero => exact fun _ => rfl
  | succ fuel ih =>
    intro s
    rw [execute_succ]
    split
    · have hstep : Relates Within (do step; haltIf (c asked) : M Unit) :=
        fun s => (step_visits (visits_true _) (c asked)).2
      exact hstep.bind (fun _ => ih (asked + 1)) s
    · rfl

/-! ## Fuel in parts -/

theorem execute_of_over {c : Context} {fuel asked : Nat}
    (h : ¬ s.machine.next < s.program.size) : execute c fuel asked s = .ok true s := by
  cases fuel with
  | zero =>
    rw [execute, Act.get_bind, Act.get_bind]
    simp [h]
  | succ fuel => rw [execute_succ, if_neg h]

theorem execute_zero {c : Context} {asked : Nat} (h : s.machine.next < s.program.size) :
    execute c 0 asked s = .ok false s := by
  rw [execute, Act.get_bind, Act.get_bind]
  simp [h]

/-- Instructions can be counted in parts. -/
theorem execute_add (c : Context) (m n asked : Nat) (s : Session) :
    execute c (m + n) asked s = (execute c m asked >>= fun stopped =>
      if stopped then pure true else execute c n (asked + m)) s := by
  induction m generalizing asked s with
  | zero =>
    rw [Nat.zero_add]
    by_cases h : s.machine.next < s.program.size
    · rw [Act.bind_ok (execute_zero h)]; rfl
    · rw [Act.bind_ok (execute_of_over h), execute_of_over h]; rfl
  | succ m ih =>
    by_cases h : s.machine.next < s.program.size
    · have hfirst : execute c (m + 1) asked s = ((do step; haltIf (c asked) : M Unit) >>=
          fun _ => execute c m (asked + 1)) s := by rw [execute_succ, if_pos h]
      rw [show m + 1 + n = m + n + 1 by omega, execute_succ, if_pos h,
        show asked + (m + 1) = asked + 1 + m by omega]
      cases hs : (do step; haltIf (c asked) : M Unit) s with
      | ok a s₁ =>
        rw [Act.bind_ok hs] at hfirst ⊢
        rw [ih]
        cases hm : execute c m (asked + 1) s₁ with
        | ok stopped s₂ => rw [Act.bind_ok hm, Act.bind_ok (hfirst.trans hm)]
        | error e s₂ => rw [Act.bind_error hm, Act.bind_error (hfirst.trans hm)]
      | error e s₁ =>
        rw [Act.bind_error hs] at hfirst ⊢
        rw [Act.bind_error hfirst]
    · rw [execute_of_over h, Act.bind_ok (execute_of_over h)]; rfl

/-- What runs out of fuel has instructions left. -/
theorem next_lt_of_execute {c : Context} {fuel asked : Nat}
    (h : execute c fuel asked s = .ok false s') : s'.machine.next < s'.program.size := by
  induction fuel generalizing asked s with
  | zero =>
    by_cases hlt : s.machine.next < s.program.size
    · rw [execute_zero hlt] at h
      cases h
      exact hlt
    · rw [execute_of_over hlt] at h
      cases h
  | succ fuel ih =>
    rw [execute_succ] at h
    split at h
    · cases hs : (do step; haltIf (c asked) : M Unit) s with
      | ok a s₁ => rw [Act.bind_ok hs] at h; exact ih h
      | error e s₁ => rw [Act.bind_error hs] at h; cases h
    · cases h

/-! ## Indentation -/

/-- The session while instructions are executed. -/
def inner (s : Session) : Session :=
  if s.logger.isPresent then { s with logger := .indented (bytes "\t") s.logger } else s

/-- A result with another logger. -/
def relog {α : Type} (l : Logger) :
    EStateM.Result Abort Session α → EStateM.Result Abort Session α
  | .ok a s => .ok a { s with logger := l }
  | .error e s => .error e { s with logger := l }

/-- With or without a logger, indenting is to act on the inner session. -/
theorem indented_eq {α : Type} {act : M α} (hact : Relates Within act) (s : Session) :
    indented act s = relog s.logger (act s.inner) := by
  by_cases hl : s.logger.isPresent = true
  · rw [indented, inner, if_pos hl, if_pos hl]; rfl
  · rw [indented, inner, if_neg hl, if_neg hl]
    cases h : act s with
    | ok a t => rw [← (hact.ok h).logger]; rfl
    | error e t => rw [← (hact.error h).logger]; rfl

theorem inner_eq (s : Session) : s.inner = { s with logger := s.inner.logger } := by
  unfold inner; split <;> rfl

theorem inner_of_logger {t : Session} (h : t.logger = s.inner.logger) :
    ({ t with logger := s.logger } : Session).inner = t := by
  unfold inner at h ⊢
  split at h
  · next hl =>
    rw [if_pos hl]
    show { t with logger := .indented (bytes "\t") s.logger } = t
    rw [show Logger.indented (bytes "\t") s.logger = t.logger from h.symm]
  · next hl => rw [if_neg hl, ← h]

theorem indented_within {α : Type} {act : M α} (hact : Relates Within act) :
    Relates Within (indented act) := by
  intro s
  rw [indented_eq hact]
  cases h : act s.inner with
  | ok a t =>
    have ht := hact.ok h
    rw [inner_eq] at ht
    rw [Within, ht]; rfl
  | error e t =>
    have ht := hact.error h
    rw [inner_eq] at ht
    rw [Within, ht]; rfl

theorem indented_add (c : Context) (m n asked : Nat) (s : Session) :
    indented (execute c (m + n) asked) s = (indented (execute c m asked) >>= fun stopped =>
      if stopped then pure true else indented (execute c n (asked + m))) s := by
  have hfirst := indented_eq (execute_within c m asked) s
  rw [indented_eq (execute_within c (m + n) asked), execute_add]
  cases h : execute c m asked s.inner with
  | error e t =>
    rw [h] at hfirst
    rw [Act.bind_error h, Act.bind_error hfirst]; rfl
  | ok stopped t =>
    rw [h] at hfirst
    rw [Act.bind_ok h, Act.bind_ok hfirst]
    cases stopped with
    | true => rfl
    | false =>
      -- the inner session of what was left is where the first part stopped
      have hrest := indented_eq (execute_within c n (asked + m)) { t with logger := s.logger }
      rw [inner_of_logger ((execute_within c m asked).ok h).logger] at hrest
      exact hrest.symm

/-! ## Runs in parts -/

theorem contained_snd (act : M Outcome) (s : Session) :
    (contained act s).2 = stateOf (act s) := by
  unfold contained Act.contain
  cases act s <;> rfl

theorem finish_within : Relates Within finish := fun s => (finish_beside s).within

theorem proceed_within (c : Context) (fuel asked : Nat) :
    Relates Within (proceed c fuel asked) := by
  refine (indented_within (execute_within c fuel asked)).bind fun stopped => ?_
  cases stopped with
  | true => exact finish_within.bind fun _ _ => rfl
  | false => exact fun _ => rfl

theorem run_within (c : Context) (fuel : Nat) (s : Session) : s.Within (s.run c fuel).2 := by
  have hstart : Relates Within start := fun s => (start_beside s).within
  rw [run, contained_snd]
  exact hstart.bind (fun _ => proceed_within c fuel 0) s

theorem eq_of_contained {act : M Outcome} {outcome : Outcome} (h : contained act s = (outcome, s')) :
    (∃ own : Outcome, act s = .ok own s' ∧ outcome = own.withoutHalt) ∨
      ∃ e, act s = .error e s' ∧ outcome = .ended (e.toError name).withoutHalt := by
  cases hact : act s with
  | ok own t => rw [contained_ok hact] at h; cases h; exact .inl ⟨own, rfl, rfl⟩
  | error e t => rw [contained_error hact] at h; cases h; exact .inr ⟨e, rfl, rfl⟩

/-- What a run comes to that goes on behind its first part. -/
def goOn (k : M Outcome) : Outcome → M Outcome
  | .unfinished => k
  | .ended error => pure (.ended error)

theorem proceed_add (c : Context) (m n asked : Nat) (s : Session) :
    proceed c (m + n) asked s =
      (proceed c m asked >>= goOn (proceed c n (asked + m))) s := by
  have hadd := indented_add c m n asked s
  rw [proceed, proceed, bind_assoc]
  cases hm : indented (execute c m asked) s with
  | error e s₁ =>
    rw [Act.bind_error hm] at hadd ⊢
    rw [Act.bind_error hadd]
  | ok stopped s₁ =>
    rw [Act.bind_ok hm] at hadd ⊢
    cases stopped with
    | true =>
      rw [Act.bind_ok hadd]
      cases hf : finish s₁ with
      | ok error s₂ => simp [Act.bind_ok hf, goOn]
      | error e s₂ => simp [Act.bind_error hf]
    | false => exact Act.bind_congr hadd

/-- A run that has not ended goes on, and one that has ended stays as it is. -/
theorem run_add (c : Context) (m n : Nat) (s : Session) :
    s.run c (m + n) = match s.run c m with
      | (.unfinished, t) => t.resume c n m
      | (.ended error, t) => (.ended error, t) := by
  cases hs : start s with
  | error e s₁ =>
    have hrun : ∀ k, s.run c k = (.ended (e.toError name).withoutHalt, s₁) := fun k =>
      contained_error (Act.bind_error hs)
    rw [hrun, hrun]
  | ok _ s₁ =>
    have hrun : ∀ k, s.run c k = contained (proceed c k 0) s₁ := fun k =>
      contained_congr (Act.bind_ok hs)
    have hadd := proceed_add c m n 0 s₁
    rw [Nat.zero_add] at hadd
    rw [hrun, hrun]
    cases hm : proceed c m 0 s₁ with
    | ok outcome s' =>
      rw [Act.bind_ok hm] at hadd
      rw [contained_ok hm]
      cases outcome with
      | unfinished => exact contained_congr hadd
      | ended error => exact contained_ok hadd
    | error e s' =>
      rw [Act.bind_error hm] at hadd
      rw [contained_error hm, contained_error hadd]

theorem run_of_unfinished {c : Context} {m : Nat} (h : s.run c m = (.unfinished, s')) (n : Nat) :
    s.run c (m + n) = s'.resume c n m := by rw [run_add, h]

theorem run_of_ended {c : Context} {m : Nat} {error : Option Error}
    (h : s.run c m = (.ended error, s')) (n : Nat) : s.run c (m + n) = (.ended error, s') := by
  rw [run_add, h]

/-- A run that has not ended had not ended before. -/
theorem unfinished_of_le {c : Context} {m n : Nat} (h : (s.run c n).1 = .unfinished)
    (hle : m ≤ n) : (s.run c m).1 = .unfinished := by
  obtain ⟨d, rfl⟩ := Nat.exists_eq_add_of_le hle
  match hm : s.run c m with
  | (.unfinished, _) => rfl
  | (.ended error, s') => rw [run_of_ended hm] at h; cases h

/-! ## One instruction more -/

/-- The machine that a part of a run leaves is the one that the instructions leave. -/
theorem proceed_machine (c : Context) (fuel asked : Nat) (s : Session) :
    (stateOf (proceed c fuel asked s)).machine =
      (stateOf (execute c fuel asked s.inner)).machine := by
  have hindented := indented_eq (execute_within c fuel asked) s
  unfold proceed
  match h : execute c fuel asked s.inner with
  | .error e t =>
    rw [h] at hindented
    rw [Act.bind_error hindented]; rfl
  | .ok false t =>
    rw [h] at hindented
    rw [Act.bind_ok hindented]; rfl
  | .ok true t =>
    rw [h] at hindented
    rw [Act.bind_ok hindented]
    have hfinish : Relates Beside (do return .ended (← finish) : M Outcome) :=
      finish_beside.bind fun _ _ => rfl
    exact (hfinish { t with logger := s.logger }).machine

theorem execute_zero_machine (c : Context) (asked : Nat) (s : Session) :
    (stateOf (execute c 0 asked s)).machine = s.machine := by
  by_cases h : s.machine.next < s.program.size
  · rw [execute_zero h]; rfl
  · rw [execute_of_over h]; rfl

/-- Without fuel the machine stays as it is. -/
theorem run_zero_machine (c : Context) (s : Session) : (s.run c 0).2.machine = s.machine := by
  rw [run, contained_snd]
  cases hs : start s with
  | error e s₁ => rw [Act.bind_error hs]; exact (start_beside.error hs).machine
  | ok _ s₁ =>
    rw [Act.bind_ok hs, proceed_machine, execute_zero_machine, inner_eq]
    exact (start_beside.ok hs).machine

theorem next_lt_of_proceed {c : Context} {fuel asked : Nat}
    (h : proceed c fuel asked s = .ok .unfinished s') : s'.machine.next < s'.program.size := by
  have hindented := indented_eq (execute_within c fuel asked) s
  unfold proceed at h
  match he : execute c fuel asked s.inner with
  | .error e t =>
    rw [he] at hindented
    rw [Act.bind_error hindented] at h
    cases h
  | .ok false t =>
    rw [he] at hindented
    rw [Act.bind_ok hindented] at h
    cases h
    have hlt := next_lt_of_execute he
    exact hlt
  | .ok true t =>
    rw [he] at hindented
    rw [Act.bind_ok hindented] at h
    cases hf : finish { t with logger := s.logger } with
    | ok error t' => rw [if_pos rfl, Act.bind_ok hf] at h; cases h
    | error e t' => rw [if_pos rfl, Act.bind_error hf] at h; cases h

/-- A run that has not ended has instructions left. -/
theorem next_lt_of_unfinished {c : Context} {n : Nat} (h : s.run c n = (.unfinished, s')) :
    s'.machine.next < s.program.size := by
  have hprogram := (run_within c n s).program
  rw [h] at hprogram
  rw [← hprogram]
  obtain ⟨own, hact, hown⟩ | ⟨e, -, hended⟩ := eq_of_contained h
  · rw [Outcome.withoutHalt_eq_unfinished.mp hown.symm] at hact
    obtain ⟨_, s₁, -, hproceed⟩ := Act.bind_eq_ok.mp hact
    exact next_lt_of_proceed hproceed
  · cases hended

/-- Where a run is after one instruction more. -/
theorem run_succ_visits {P : Machine → Prop} {c : Context} {k : Nat}
    (h : s.run c k = (.unfinished, s')) (hP : (s'.machine.step s.program s.strict).Visits P) :
    P (s.run c (k + 1)).2.machine := by
  have hwithin := run_within c k s
  have hlt := next_lt_of_unfinished h
  rw [h] at hwithin
  rw [← hwithin.program, ← hwithin.strict] at hP
  rw [← hwithin.program] at hlt
  rw [run_of_unfinished h, resume, contained_snd, proceed_machine, execute_succ, inner_eq,
    if_pos hlt]
  have hstep := step_visits (s := { s' with logger := s'.inner.logger }) hP (c k)
  cases hs : (do step; haltIf (c k) : M Unit) { s' with logger := s'.inner.logger } with
  | error e t => rw [hs] at hstep; rw [Act.bind_error hs]; exact hstep.1
  | ok _ t =>
    rw [hs] at hstep
    rw [Act.bind_ok hs, execute_zero_machine]
    exact hstep.1

end Session

end WordStack
